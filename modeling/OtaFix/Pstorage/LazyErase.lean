import OtaFix.Pstorage.Progress

/-!
# Pages are erased before they are written, and not after

While the DFU layer only marks pages of its map as erased and the stores stay within one page,
the SoftDevice is asked to write into a page of the image only when the map has it as erased,
and a lazy erase never takes back bytes that it was asked to write before.
-/

namespace OtaFix.Pstorage

open Lib

variable {env : Env} {s s' : State} {pages : DfuPages}

/-! ## Pages -/

/-- The image lies on pages of the flash. -/
structure DfuPages.Placed (pages : DfuPages) : Prop where
  aligned : pages.baseAddress % codePageSize = 0
  fits : pages.baseAddress + pages.imagePageCount * codePageSize ≤ 2 ^ 32

/-- Address `a` is in page `i` of the image. -/
structure DfuPages.Has (pages : DfuPages) (i a : Nat) : Prop where
  image : i < pages.imagePageCount
  low : pages.baseAddress + i * codePageSize ≤ a
  high : a < pages.baseAddress + (i + 1) * codePageSize

/-- The map has every image page among the addresses as erased. -/
def DfuPages.Ready (pages : DfuPages) (addresses : Nat → Prop) : Prop :=
  ∀ erased, pages.erased = some erased → ∀ a i, addresses a → pages.Has i a → erased i = true

def FlashOp.Writes : FlashOp → Nat → Prop
  | .write address data, a => address ≤ a ∧ a < address + data.length
  | .erase _, _ => False

def FlashOp.Erases : FlashOp → Nat → Prop
  | .write _ _, _ => False
  | .erase page, a => page * codePageSize ≤ a ∧ a < (page + 1) * codePageSize

/-- A store stays within one page size, and does not reach into the image from below. -/
structure StoreInRange (base blockId offset size : Nat) : Prop where
  fits : blockId + offset + size < 2 ^ 32
  page : size ≤ codePageSize
  side : base ≤ blockId + offset ∨ blockId + offset + size ≤ base

/-- The addresses of a store. -/
def range (blockId offset size a : Nat) : Prop :=
  blockId + offset ≤ a ∧ a < blockId + offset + size

/-- What `pageToErase` computes for a store that begins in the image or behind it. -/
theorem pageToErase_eq {blockId offset size : Nat} {erased : Nat → Bool}
    (hr : StoreInRange pages.baseAddress blockId offset size) (hpos : 0 < size)
    (hside : pages.baseAddress ≤ blockId + offset) (herased : pages.erased = some erased) :
    pageToErase pages blockId size offset =
      let first := (blockId + offset - pages.baseAddress) / codePageSize
      let last := (blockId + offset + size - 1 - pages.baseAddress) / codePageSize
      if first < pages.imagePageCount && !erased first then some first
      else if last ≠ first && last < pages.imagePageCount && !erased last then some last
      else none := by
  have hfits := hr.fits
  have hadd : add32 blockId offset = blockId + offset := by
    unfold add32
    omega
  have hend : sub32 (add32 (blockId + offset) size) 1 = blockId + offset + size - 1 := by
    unfold sub32 add32
    omega
  have hrel : sub32 (blockId + offset) pages.baseAddress = blockId + offset - pages.baseAddress := by
    unfold sub32
    omega
  have hrelEnd : sub32 (blockId + offset + size - 1) pages.baseAddress =
      blockId + offset + size - 1 - pages.baseAddress := by
    unfold sub32
    omega
  simp only [pageToErase, hadd, herased, if_neg (Nat.not_lt.mpr hside), hrel, hend, hrelEnd]

/-- No erase is needed: the map has every page of the store. -/
theorem pageToErase_none {blockId offset size : Nat}
    (hr : StoreInRange pages.baseAddress blockId offset size)
    (h : pageToErase pages blockId size offset = none) :
    pages.Ready (range blockId offset size) := by
  intro erased herased a i ⟨hfrom, hto⟩ ⟨himage, hlow, hhigh⟩
  have hpage := hr.page
  have hc : codePageSize = 4096 := rfl
  have hside : pages.baseAddress ≤ blockId + offset := by
    obtain hs | hs := hr.side
    · exact hs
    · omega
  rw [pageToErase_eq hr (by omega) hside herased] at h
  dsimp only at h
  split at h
  · cases h
  rename_i hfirst
  split at h
  · cases h
  rename_i hlast
  simp only [Bool.and_eq_true, decide_eq_true_eq, not_and, Bool.not_eq_true',
    Bool.not_eq_false] at hfirst hlast
  rw [hc] at hlow hhigh hpage hfirst hlast
  -- the addresses lie in the first page of the store or in its last
  obtain hi | hi : i = (blockId + offset - pages.baseAddress) / 4096 ∨
      i = (blockId + offset + size - 1 - pages.baseAddress) / 4096 := by omega
  · rw [hi]
    exact hfirst (by omega)
  · by_cases hsame : (blockId + offset + size - 1 - pages.baseAddress) / 4096 =
        (blockId + offset - pages.baseAddress) / 4096
    · rw [hi, hsame]
      exact hfirst (by omega)
    · rw [hi]
      exact hlast ⟨hsame, by omega⟩

/-- The page to erase is a page of the image that the map does not have. -/
theorem pageToErase_some {blockId offset size page : Nat}
    (h : pageToErase pages blockId size offset = some page) :
    page < pages.imagePageCount ∧ ∃ erased, pages.erased = some erased ∧ erased page = false := by
  unfold pageToErase at h
  cases herased : pages.erased with
  | none => rw [herased] at h; cases h
  | some erased =>
    rw [herased] at h
    dsimp only at h
    split at h
    · cases h
    split at h
    · rename_i hfirst
      cases h
      simp only [Bool.and_eq_true, decide_eq_true_eq, Bool.not_eq_true'] at hfirst
      exact ⟨hfirst.1, erased, rfl, hfirst.2⟩
    split at h
    · rename_i hlast
      cases h
      simp only [Bool.and_eq_true, decide_eq_true_eq, Bool.not_eq_true'] at hlast
      exact ⟨hlast.1.2, erased, rfl, hlast.2⟩
    · cases h

/-- `p'` has the image of `p` and more of its pages as erased. -/
structure DfuPages.Marks (p p' : DfuPages) : Prop where
  base : p'.baseAddress = p.baseAddress
  count : p'.imagePageCount = p.imagePageCount
  erased : ∀ e', p'.erased = some e' → ∃ e, p.erased = some e ∧ ∀ i, e i = true → e' i = true

theorem DfuPages.Marks.has {p p' : DfuPages} (h : p.Marks p') {i a : Nat} :
    p'.Has i a ↔ p.Has i a := by
  refine ⟨fun hh => ⟨?_, ?_, ?_⟩, fun hh => ⟨?_, ?_, ?_⟩⟩
  · exact h.count ▸ hh.image
  · exact h.base ▸ hh.low
  · exact h.base ▸ hh.high
  · exact h.count ▸ hh.image
  · exact h.base ▸ hh.low
  · exact h.base ▸ hh.high

theorem DfuPages.Marks.ready {p p' : DfuPages} (h : p.Marks p') {addresses : Nat → Prop}
    (hr : p.Ready addresses) : p'.Ready addresses := by
  intro e' he' a i ha hhas
  obtain ⟨e, he, himp⟩ := h.erased e' he'
  exact himp i (hr e he a i ha (h.has.mp hhas))

theorem DfuPages.marks_mark (p : DfuPages) (page : Nat) : p.Marks (p.mark page) := by
  refine ⟨rfl, rfl, fun e' he' => ?_⟩
  obtain ⟨e, he, rfl⟩ := Option.map_eq_some_iff.mp he'
  refine ⟨e, he, fun i hi => ?_⟩
  dsimp only
  split
  · rfl
  · exact hi

/-! ## Commands -/

/-- A store that may be issued: it stays within a page size, and the map has its pages. -/
structure CmdReady (pages : DfuPages) (c : Cmd) : Prop where
  inRange : StoreInRange pages.baseAddress c.storageAddr.blockId c.offset c.size
  source : ∀ address data, c.dataAddr = .ram address data → data.length ≤ codePageSize
  ready : pages.Ready (range c.storageAddr.blockId c.offset c.size)

theorem opOf_write {c : Cmd} (h : c.opCode ≠ .clear) (r : Nat) : opOf s c r =
    let done := r * socMaxWriteSize % 2 ^ 32
    let left := sub32 c.size done
    .write (add32 c.storageAddr.blockId (add32 c.offset done))
      (((sourceBytes s c.dataAddr).drop done).take
        (4 * ((if left < socMaxWriteSize then left else socMaxWriteSize) / 4))) := by
  unfold opOf
  cases hop : c.opCode with
  | clear => exact absurd hop h
  | store => rfl
  | invalid => rfl

theorem opOf_erase {c : Cmd} (h : c.opCode = .clear) (r : Nat) :
    opOf s c r = .erase (add32 (c.storageAddr.blockId / codePageSize) r) := by
  unfold opOf
  rw [h]

/-- Whatever the round, a store writes only to its own addresses. -/
theorem opOf_writes {c : Cmd} {r a : Nat} (hop : c.opCode ≠ .clear)
    (hr : StoreInRange pages.baseAddress c.storageAddr.blockId c.offset c.size)
    (hsrc : (sourceBytes s c.dataAddr).length ≤ codePageSize)
    (h : (opOf s c r).Writes a) : range c.storageAddr.blockId c.offset c.size a := by
  have hfits := hr.fits
  have hpage := hr.page
  have hc : codePageSize = 4096 := rfl
  have hm : socMaxWriteSize = 4096 := rfl
  rw [opOf_write hop] at h
  obtain ⟨hlow, hhigh⟩ := h
  rw [List.length_take, List.length_drop] at hhigh
  -- only round 0 has bytes to write
  have hzero : r * socMaxWriteSize % 2 ^ 32 = 0 := by
    rw [hm] at hlow hhigh ⊢
    omega
  have haddr : add32 c.storageAddr.blockId (add32 c.offset 0) =
      c.storageAddr.blockId + c.offset := by
    unfold add32
    omega
  have hleft : sub32 c.size 0 = c.size := by
    unfold sub32
    omega
  rw [hzero, haddr] at hlow hhigh
  rw [hleft, hm] at hhigh
  refine ⟨hlow, ?_⟩
  split at hhigh <;> omega

/-! ## The invariant -/

/-- Nothing wrote to the page of the image, and no queued store is about to. -/
structure Fresh (s : State) (page : Nat) : Prop where
  issued : ∀ y ∈ s.issued, ∀ a, y.op.Writes a → ¬ s.dfu.Has page a
  queued : ∀ c ∈ s.queue.toList, c.opCode = .store →
    ∀ a, range c.storageAddr.blockId c.offset c.size a → ¬ s.dfu.Has page a

/-- A queued lazy erase is for a fresh page. -/
def EraseReady (s : State) (c : Cmd) : Prop :=
  ∃ page h, c = eraseCmd h ∧ page < s.dfu.imagePageCount ∧
    h.blockId = s.dfu.baseAddress + page * codePageSize ∧ Fresh s page

/-- `x` writes nothing that the later lazy erase `y` takes back. -/
def Survives (x y : Issue) : Prop :=
  y.flag = .lazyErase → ∀ a, x.op.Writes a → ¬ y.op.Erases a

structure Safe (s : State) : Prop where
  placed : s.dfu.Placed
  slots : ∀ i, (s.pending.slots i).data.length ≤ pendingPacketSize
  packets : ∀ p ∈ s.pending.toList, StoreInRange s.dfu.baseAddress p.handle.blockId p.offset p.size
  restRound : s.queue.count = 0 → s.roundVal = 0
  eraseRound : 0 < s.queue.count → s.queue.front.flag = .lazyErase → s.roundVal = 0
  single : s.queue.toList.Pairwise fun c d => c.flag = .none ∨ d.flag = .none
  unflagged : s.lazyEraseActive = false → s.processingPending = false →
    ∀ c ∈ s.queue.toList, c.flag = .none
  stores : ∀ c ∈ s.queue.toList, c.opCode = .store → CmdReady s.dfu c
  erases : ∀ c ∈ s.queue.toList, c.flag = .lazyErase → EraseReady s c
  written : ∀ y ∈ s.issued, s.dfu.Ready y.op.Writes
  mapped : ∀ y ∈ s.issued, y.pages.Ready y.op.Writes
  ordered : s.issued.Pairwise Survives

theorem Safe.sourceBytes_le (h : Safe s) {c : Cmd} (hc : CmdReady s.dfu c) :
    (sourceBytes s c.dataAddr).length ≤ codePageSize := by
  cases hsrc : c.dataAddr with
  | ram address data => exact hc.source address data hsrc
  | slot i => exact Nat.le_trans (h.slots i) (by decide)

/-- A lazy erase takes the bytes of its page. -/
theorem erases_has {h : Handle} {page a : Nat} (hp : s.dfu.Placed)
    (hblock : h.blockId = s.dfu.baseAddress + page * codePageSize)
    (hpage : page < s.dfu.imagePageCount) (he : (opOf s (eraseCmd h) 0).Erases a) :
    s.dfu.Has page a := by
  have haligned := hp.aligned
  have hfits := hp.fits
  rw [opOf_erase rfl] at he
  obtain ⟨hlow, hhigh⟩ := he
  have hc : codePageSize = 4096 := rfl
  have hnum : add32 ((eraseCmd h).storageAddr.blockId / codePageSize) 0 =
      s.dfu.baseAddress / 4096 + page := by
    change add32 (h.blockId / codePageSize) 0 = _
    rw [hblock]
    unfold add32
    rw [hc] at haligned hfits ⊢
    omega
  rw [hnum, hc] at hlow hhigh
  rw [hc] at haligned
  exact ⟨hpage, by rw [hc]; omega, by rw [hc]; omega⟩

theorem Safe.ask (h : Safe s) (hpos : 0 < s.queue.count)
    (hop : s.queue.front.opCode ≠ .invalid) : Safe (asked env s.queue.front s) := by
  have hmem : s.queue.front ∈ s.queue.toList := by
    rw [Ring.toList_eq_front_cons hpos]
    exact List.mem_cons_self
  have hwrites : ∀ a, (opOf s s.queue.front s.roundVal).Writes a →
      s.queue.front.opCode = .store ∧ range s.queue.front.storageAddr.blockId
        s.queue.front.offset s.queue.front.size a := by
    intro a ha
    cases hcode : s.queue.front.opCode with
    | invalid => exact absurd hcode hop
    | clear => rw [opOf_erase hcode] at ha; exact ha.elim
    | store =>
      have hready := h.stores _ hmem hcode
      exact ⟨rfl, opOf_writes (by rw [hcode]; exact fun h => by cases h) hready.inRange
        (h.sourceBytes_le hready) ha⟩
  have hready : s.dfu.Ready (opOf s s.queue.front s.roundVal).Writes := by
    intro e he a i ha hhas
    obtain ⟨hcode, hrange⟩ := hwrites a ha
    exact (h.stores _ hmem hcode).ready e he a i hrange hhas
  refine ⟨h.placed, h.slots, h.packets, h.restRound, h.eraseRound, h.single, h.unflagged,
    h.stores, ?_, ?_, ?_, ?_⟩
  · intro c hc hflag
    obtain ⟨page, hd, heq, hpage, hblock, hfresh⟩ := h.erases c hc hflag
    refine ⟨page, hd, heq, hpage, hblock, fun y hy a ha => ?_, hfresh.queued⟩
    obtain hy | hy := List.mem_append.mp hy
    · exact hfresh.issued y hy a ha
    · rw [List.mem_singleton.mp hy] at ha
      exact hfresh.queued _ hmem (hwrites a ha).1 a (hwrites a ha).2
  · intro y hy
    obtain hy | hy := List.mem_append.mp hy
    · exact h.written y hy
    · rw [List.mem_singleton.mp hy]
      exact hready
  · intro y hy
    obtain hy | hy := List.mem_append.mp hy
    · exact h.mapped y hy
    · rw [List.mem_singleton.mp hy]
      exact hready
  · refine List.pairwise_append.mpr ⟨h.ordered, List.pairwise_singleton _ _, fun x hx y hy => ?_⟩
    rw [List.mem_singleton.mp hy]
    intro hflag a ha herases
    obtain ⟨page, hd, heq, hpage, hblock, hfresh⟩ := h.erases _ hmem hflag
    have hround := h.eraseRound hpos hflag
    rw [hround, heq] at herases
    exact hfresh.issued x hx a ha (erases_has h.placed hblock hpage herases)

/-! ## The parts keep it -/

/-- The rings and the log stay; the flags may only say more. -/
theorem Safe.congr (h : Safe s) (hq : s'.queue = s.queue) (hr : s'.roundVal = s.roundVal)
    (hp : s'.pending = s.pending) (hi : s'.issued = s.issued) (hd : s.dfu.Marks s'.dfu)
    (hf : s'.lazyEraseActive = false → s'.processingPending = false →
      ∀ c ∈ s.queue.toList, c.flag = .none) : Safe s' := by
  refine ⟨⟨hd.base ▸ h.placed.aligned, by rw [hd.base, hd.count]; exact h.placed.fits⟩,
    hp ▸ h.slots, ?_, ?_, ?_, hq ▸ h.single, hq ▸ hf, ?_, ?_, ?_, hi ▸ h.mapped, hi ▸ h.ordered⟩
  · intro p hp'
    obtain ⟨h1, h2, h3⟩ := h.packets p (hp ▸ hp')
    exact ⟨h1, h2, by rw [hd.base]; exact h3⟩
  · rw [hq, hr]
    exact h.restRound
  · rw [hq, hr]
    exact h.eraseRound
  · intro c hc hop
    obtain ⟨⟨h1, h2, h3⟩, hsrc, hready⟩ := h.stores c (hq ▸ hc) hop
    exact ⟨⟨h1, h2, by rw [hd.base]; exact h3⟩, hsrc, hd.ready hready⟩
  · intro c hc hflag
    obtain ⟨page, hd', heq, hpage, hblock, hfresh⟩ := h.erases c (hq ▸ hc) hflag
    refine ⟨page, hd', heq, hd.count ▸ hpage, hd.base ▸ hblock, ?_, ?_⟩
    · intro y hy a ha
      rw [hd.has]
      exact hfresh.issued y (hi ▸ hy) a ha
    · intro c hc hop a ha
      rw [hd.has]
      exact hfresh.queued c (hq ▸ hc) hop a ha
  · intro y hy
    exact hd.ready (h.written y (hi ▸ hy))

theorem DfuPages.Marks.refl (p : DfuPages) : p.Marks p := ⟨rfl, rfl, fun e he => ⟨e, he, fun _ => id⟩⟩

/-- Commands leave the queue. -/
theorem Safe.shrink (h : Safe s) (hq : s'.queue.toList.Sublist s.queue.toList)
    (hr : s'.roundVal = 0) (hp : s'.pending = s.pending) (hi : s'.issued = s.issued)
    (hd : s'.dfu = s.dfu) (hl : s'.lazyEraseActive = s.lazyEraseActive)
    (hproc : s'.processingPending = s.processingPending) : Safe s' := by
  refine ⟨hd ▸ h.placed, hp ▸ h.slots, by rw [hd, hp]; exact h.packets, fun _ => hr, fun _ _ => hr,
    h.single.sublist hq, ?_, ?_, ?_, by rw [hd, hi]; exact h.written, hi ▸ h.mapped, hi ▸ h.ordered⟩
  · intro h1 h2 c hc
    exact h.unflagged (hl ▸ h1) (hproc ▸ h2) c (hq.subset hc)
  · intro c hc hop
    rw [hd]
    exact h.stores c (hq.subset hc) hop
  · intro c hc hflag
    obtain ⟨page, hd', heq, hpage, hblock, hfresh⟩ := h.erases c (hq.subset hc) hflag
    refine ⟨page, hd', heq, hd ▸ hpage, hd ▸ hblock, ?_, ?_⟩
    · rw [hi, hd]
      exact hfresh.issued
    · intro c hc
      rw [hd]
      exact hfresh.queued c (hq.subset hc)

theorem Safe.pop (h : Safe s) (hpos : 0 < s.queue.count) : Safe s.popCmd := by
  refine h.shrink ?_ rfl rfl rfl rfl rfl rfl
  rw [popCmd_queue (Ring.toList_eq_front_cons hpos), Ring.toList_eq_front_cons hpos]
  exact List.sublist_cons_self _ _

/-- Behind a flagged head no command is flagged. -/
theorem Safe.pop_unflagged (h : Safe s) (hpos : 0 < s.queue.count)
    (hflag : s.queue.front.flag ≠ .none) : ∀ c ∈ s.popCmd.queue.toList, c.flag = .none := by
  intro c hc
  have hsingle := h.single
  rw [popCmd_queue (Ring.toList_eq_front_cons hpos)] at hc
  rw [Ring.toList_eq_front_cons hpos, List.pairwise_cons] at hsingle
  exact (hsingle.1 c hc).resolve_left hflag

theorem Safe.push (h : Safe s) {cmd : Cmd} (hlt : s.queue.count < 18)
    (hplain : ∀ c ∈ s.queue.toList, c.flag = .none)
    (hflag : s.lazyEraseActive = false → s.processingPending = false → cmd.flag = .none)
    (hstore : cmd.opCode = .store → CmdReady s.dfu cmd)
    (herase : cmd.flag = .lazyErase → cmd.opCode = .clear ∧ EraseReady s cmd) :
    Safe (s.pushCmd cmd) := by
  have hpush : (s.pushCmd cmd).queue.toList = s.queue.toList ++ [cmd] := Ring.toList_push hlt cmd
  have hmem : ∀ {c}, c ∈ (s.pushCmd cmd).queue.toList → c ∈ s.queue.toList ∨ c = cmd := by
    intro c hc
    rw [hpush, List.mem_append, List.mem_singleton] at hc
    exact hc
  refine ⟨h.placed, h.slots, h.packets, ?_, ?_, ?_, ?_, ?_, ?_, h.written, h.mapped, h.ordered⟩
  · intro h0
    exact absurd h0 (count_ne_zero_of_toList hpush)
  · intro _ hfront
    by_cases h0 : s.queue.count = 0
    · exact h.restRound h0
    · rw [show (s.pushCmd cmd).queue.front = s.queue.front from
        Ring.front_push (Nat.pos_of_ne_zero h0) cmd] at hfront
      exact h.eraseRound (Nat.pos_of_ne_zero h0) hfront
  · rw [hpush]
    exact List.pairwise_append.mpr ⟨h.single, List.pairwise_singleton _ _,
      fun c hc _ _ => .inl (hplain c hc)⟩
  · intro h1 h2 c hc
    obtain hc | rfl := hmem hc
    · exact hplain c hc
    · exact hflag h1 h2
  · intro c hc hop
    obtain hc | rfl := hmem hc
    · exact h.stores c hc hop
    · exact hstore hop
  · intro c hc hlazy
    obtain hc | rfl := hmem hc
    · rw [hplain c hc] at hlazy
      cases hlazy
    · obtain ⟨hclear, page, hd, heq, hpage, hblock, hfresh⟩ := herase hlazy
      refine ⟨page, hd, heq, hpage, hblock, hfresh.issued, fun x hx hop => ?_⟩
      obtain hx | rfl := hmem hx
      · exact hfresh.queued x hx hop
      · rw [hclear] at hop
        cases hop

/-- A command is queued while none is flagged; a refusal leaves the queue as it was. -/
theorem Safe.enqueue (h : Safe s) {cmd : Cmd} (hop : cmd.opCode ≠ .invalid)
    (hplain : ∀ c ∈ s.queue.toList, c.flag = .none)
    (hflag : s.lazyEraseActive = false → s.processingPending = false → cmd.flag = .none)
    (hstore : cmd.opCode = .store → CmdReady s.dfu cmd)
    (herase : cmd.flag = .lazyErase → cmd.opCode = .clear ∧ EraseReady s cmd) :
    Safe (cmdQueueEnqueue env cmd s).2 ∧ ((cmdQueueEnqueue env cmd s).1 ≠ nrfSuccess →
      ∀ c ∈ (cmdQueueEnqueue env cmd s).2.queue.toList, c.flag = .none) := by
  have hle := s.queue.count_le
  by_cases hgo : s.queue.count = 0 ∧ s.flashAccess = .idle
  · have hlt : s.queue.count < 18 := by omega
    have hfront : (s.pushCmd cmd).queue.front = cmd := by
      refine Ring.front_eq (l := []) ?_
      rw [State.pushCmd, Ring.toList_push hlt, Ring.toList_eq_nil.mpr hgo.1]
      rfl
    have hask : Safe (asked env cmd (s.pushCmd cmd)) := by
      have hask := @Safe.ask env _ (h.push hlt hplain hflag hstore herase)
        (Nat.pos_of_ne_zero (count_ne_zero_of_toList (Ring.toList_push hlt cmd)))
        (by rw [hfront]; exact hop)
      rw [hfront] at hask
      exact hask
    rw [cmdQueueEnqueue_first hop hgo.1 hgo.2]
    split
    · exact ⟨hask, fun hne => absurd rfl hne⟩
    split
    · have hdrop : (asked env cmd (s.pushCmd cmd)).dropCmd.queue.toList = s.queue.toList :=
        Ring.toList_dropBack_push hlt cmd .init
      refine ⟨hask.shrink ?_ rfl rfl rfl rfl rfl rfl, fun _ => by rw [hdrop]; exact hplain⟩
      rw [hdrop, show (asked env cmd (s.pushCmd cmd)).queue.toList = s.queue.toList ++ [cmd] from
        Ring.toList_push hlt cmd]
      exact List.sublist_append_left _ _
    · rename_i hok
      exact ⟨hask, fun hne => absurd hne hok⟩
  · unfold cmdQueueEnqueue
    by_cases hfull : s.queue.count = pstorageCmdQueueSize
    · rw [if_neg (not_not_intro hfull)]
      exact ⟨h, fun _ => hplain⟩
    · rw [if_pos hfull, if_neg hgo]
      have hlt : s.queue.count < 18 := by simp only [pstorageCmdQueueSize] at hfull; omega
      exact ⟨h.push hlt hplain hflag hstore herase, fun hne => absurd rfl hne⟩

theorem fresh_of_unmarked (h : Safe s) {page : Nat} {erased : Nat → Bool}
    (herased : s.dfu.erased = some erased) (hpage : erased page = false) : Fresh s page := by
  refine ⟨fun y hy a ha hhas => ?_, fun c hc hop a ha hhas => ?_⟩
  · have := h.written y hy erased herased a page ha hhas
    rw [hpage] at this
    cases this
  · have := (h.stores c hc hop).ready erased herased a page ha hhas
    rw [hpage] at this
    cases this

theorem lazyErase_safe (h : Safe s) (hlazy : s.lazyEraseActive = false)
    (hproc : s.processingPending = false) (handle : Handle) (size offset : Nat) :
    Safe (lazyEraseCheckAndTrigger env handle size offset s).2 ∧
      ((lazyEraseCheckAndTrigger env handle size offset s).1 ≠ nrfSuccess →
        Safe (lazyEraseCheckAndTrigger env handle size offset s).2.cleared) := by
  have hplain := h.unflagged hlazy hproc
  unfold lazyEraseCheckAndTrigger
  cases hpage : pageToErase s.dfu handle.blockId size offset with
  | none => exact ⟨h, fun hne => absurd rfl hne⟩
  | some page =>
    obtain ⟨himage, erased, herased, hunmarked⟩ := pageToErase_some hpage
    have hfresh := fresh_of_unmarked h herased hunmarked
    have hblock : add32 s.dfu.baseAddress (page * codePageSize % 2 ^ 32) =
        s.dfu.baseAddress + page * codePageSize := by
      have hfits := h.placed.fits
      have hc : codePageSize = 4096 := rfl
      rw [hc] at hfits ⊢
      unfold add32
      omega
    have hs : Safe { s with lazyEraseActive := true, lazyErasePage := page } :=
      h.congr rfl rfl rfl rfl (.refl _) fun h => by cases h
    obtain ⟨he, hfail⟩ := @Safe.enqueue env _ hs (eraseCmd ⟨handle.moduleId,
        add32 s.dfu.baseAddress (page * codePageSize % 2 ^ 32)⟩) (fun h => by cases h) hplain
      (fun h => by cases h) (fun h => by cases h)
      (fun _ => ⟨rfl, page, _, rfl, himage, hblock, hfresh.issued, hfresh.queued⟩)
    dsimp only
    split
    · rename_i hret
      have hplain' := hfail hret
      exact ⟨he.congr rfl rfl rfl rfl (.refl _) fun _ _ => hplain',
        fun _ => he.congr rfl rfl rfl rfl (.refl _) fun _ _ => hplain'⟩
    · exact ⟨he, fun hne => absurd rfl hne⟩

theorem storeFront_safe (h : Safe s) (hrest : AtRest s)
    (hpage : pageToErase s.dfu s.pending.front.handle.blockId s.pending.front.size
      s.pending.front.offset = none) :
    Safe (storeFront env s).2 ∧ ((storeFront env s).1 ≠ nrfSuccess →
      Safe (storeFront env s).2.cleared) := by
  have hplain := h.unflagged hrest.lazy hrest.processing
  have hmem : s.pending.front ∈ s.pending.toList := by
    rw [Ring.toList_eq_front_cons hrest.pending]
    exact List.mem_cons_self
  have hrange := h.packets _ hmem
  have hs : Safe { s with processingPending := true } :=
    h.congr rfl rfl rfl rfl (.refl _) fun _ h => by cases h
  obtain ⟨he, hfail⟩ := @Safe.enqueue env _ hs (s.pending.front.cmd s.pending.head)
    (fun h => by cases h) hplain (fun _ h => by cases h)
    (fun _ => ⟨hrange, fun _ _ h => (by cases h), pageToErase_none hrange hpage⟩)
    (fun h => by cases h)
  exact ⟨he, fun hret => he.congr rfl rfl rfl rfl (.refl _) fun _ _ => hfail hret⟩

/-- What the owners do: stores in range, clears, and marks in the map. -/
def Act.Orderly (base : Nat) : Act → Prop
  | .call (.store dest _ data offset) => StoreInRange base dest.blockId offset data.length
  | .call (.clear _ _) => True
  | .dfu change => ∀ p : DfuPages, p.Marks (change p)

theorem pendingPacketAdd_safe (h : Safe s) {dest : Handle} {src offset : Nat} {data : List Byte}
    (hr : StoreInRange s.dfu.baseAddress dest.blockId offset data.length) :
    Safe (pendingPacketAdd dest src data offset s).2 := by
  unfold pendingPacketAdd
  split
  · exact h
  rename_i hroom
  have hlt : s.pending.count < 8 := by simp only [pendingPacketCount] at hroom; omega
  have hlen : data.length ≤ pendingPacketSize := by omega
  refine ⟨h.placed, fun i => ?_, fun p hp => ?_, h.restRound, h.eraseRound, h.single, h.unflagged,
    h.stores, fun c hc hflag => ?_, h.written, h.mapped, h.ordered⟩
  · have hslot := Ring.slots_push s.pending (⟨dest, offset, data.length, src, data⟩ : Pending) i
    obtain hslot | hslot := hslot
    · exact Nat.le_trans (Nat.le_of_eq (congrArg (·.data.length) hslot)) (h.slots i)
    · exact Nat.le_trans (Nat.le_of_eq (congrArg (·.data.length) hslot)) hlen
  · change p ∈ (s.pending.push _).toList at hp
    rw [Ring.toList_push hlt, List.mem_append, List.mem_singleton] at hp
    obtain hp | rfl := hp
    · exact h.packets p hp
    · exact hr
  · obtain ⟨page, hd, heq, hpage, hblock, hfresh⟩ := h.erases c hc hflag
    exact ⟨page, hd, heq, hpage, hblock, hfresh.issued, hfresh.queued⟩

theorem act_safe {a : Act} (h : Safe s) (ha : a.Orderly s.dfu.baseAddress) : Safe (act env s a) := by
  have hcall : ∀ c : Call, (Act.call c).Orderly s.dfu.baseAddress → Safe (callOf env c s).2 := by
    intro c hc
    cases c with
    | clear dest size =>
      rw [callOf, pstorageClear]
      split
      · exact h
      · rename_i hplain
        exact (h.enqueue (fun h => by cases h) (h.unflagged (by simpa using fun h => hplain (.inl h))
          (by simpa using fun h => hplain (.inr (.inl h)))) (fun _ _ => rfl)
          (fun h => by cases h) (fun h => by cases h)).1
    | store dest src data offset =>
      rw [callOf, pstorageStore]
      split
      · exact h
      split
      · exact pendingPacketAdd_safe h hc
      rename_i hplain
      have hlazy : s.lazyEraseActive = false := by simpa using fun h => hplain (.inl h)
      have hproc : s.processingPending = false := by simpa using fun h => hplain (.inr (.inl h))
      have herase := (@lazyErase_safe env _ h hlazy hproc dest data.length offset).1
      have hsame := @lazyErase_plain env s dest data.length offset
      have hbase : (lazyEraseCheckAndTrigger env dest data.length offset s).2.dfu.baseAddress =
        s.dfu.baseAddress := by rw [lazyErase_dfu]
      generalize lazyEraseCheckAndTrigger env dest data.length offset s = r at herase hsame hbase ⊢
      obtain ⟨ret, s₁⟩ := r
      dsimp only at herase hsame hbase ⊢
      split
      · exact herase
      rename_i hret
      split
      · exact pendingPacketAdd_safe herase (hbase ▸ hc)
      · rename_i hactive
        obtain ⟨heq, hpage⟩ := hsame (not_not.mp hret) (by simpa using hactive)
        obtain rfl : s₁ = s := congrArg Prod.snd heq
        refine (@Safe.enqueue env _ herase (Call.store dest src data offset).cmd
          (Call.opCode_cmd _) (herase.unflagged hlazy hproc) (fun _ _ => rfl) (fun _ => ?_)
          (fun h => by cases h)).1
        refine ⟨hc, fun address d hd => ?_, pageToErase_none hc hpage⟩
        cases hd
        exact hc.page
  cases a with
  | dfu change =>
    refine h.congr rfl rfl rfl rfl (ha s.dfu) fun h1 h2 => h.unflagged h1 h2
  | call c => exact (hcall c ha).congr rfl rfl rfl rfl (.refl _) (hcall c ha).unflagged

theorem Safe.popPending (h : Safe s) : Safe s.popPending := by
  refine ⟨h.placed, h.slots, fun p hp => ?_, h.restRound, h.eraseRound, h.single, h.unflagged,
    h.stores, fun c hc hflag => ?_, h.written, h.mapped, h.ordered⟩
  · by_cases hpos : 0 < s.pending.count
    · refine h.packets p ?_
      rw [Ring.toList_eq_front_cons hpos]
      exact List.mem_cons_of_mem _ hp
    · have hnil : s.popPending.pending.toList = [] := by
        refine Ring.toList_eq_nil.mpr ?_
        change s.pending.count - 1 = 0
        omega
      rw [hnil] at hp
      cases hp
  · obtain ⟨page, hd, heq, hpage, hblock, hfresh⟩ := h.erases c hc hflag
    exact ⟨page, hd, heq, hpage, hblock, hfresh.issued, hfresh.queued⟩

theorem Safe.nextRound (h : Safe s) (hpos : 0 < s.queue.count)
    (hcover : ¬ Covers s.queue.front.size (s.roundVal + 1)) : Safe s.nextRound := by
  refine ⟨h.placed, h.slots, h.packets, fun h0 => ?_, fun _ hflag => ?_, h.single, h.unflagged,
    h.stores, fun c hc hflag => ?_, h.written, h.mapped, h.ordered⟩
  · exact absurd h0 (Nat.pos_iff_ne_zero.mp hpos)
  · have hmem : s.queue.front ∈ s.queue.toList := by
      rw [Ring.toList_eq_front_cons hpos]
      exact List.mem_cons_self
    obtain ⟨_, _, heq, _⟩ := h.erases _ hmem hflag
    rw [h.eraseRound hpos hflag, heq] at hcover
    exact absurd (show codePageSize ≤ (0 + 1) * socMaxWriteSize % 2 ^ 32 by decide) hcover
  · obtain ⟨page, hd, heq, hpage, hblock, hfresh⟩ := h.erases c hc hflag
    exact ⟨page, hd, heq, hpage, hblock, hfresh.issued, hfresh.queued⟩

/-- The owners keep to their pages in every callback. -/
def Orderly (env : Env) (base : Nat) : Prop := ∀ n, ∀ a ∈ env.callback n, a.Orderly base

theorem callOf_dfu (c : Call) : (callOf env c s).2.dfu = s.dfu := by
  have hadd : ∀ {s : State} (dest src data offset),
      (pendingPacketAdd dest src data offset s).2.dfu = s.dfu := by
    intro s dest src data offset
    unfold pendingPacketAdd
    split <;> rfl
  cases c with
  | clear dest size =>
    rw [callOf, pstorageClear]
    split
    · rfl
    · exact (cmdQueueEnqueue_frame _).dfu
  | store dest src data offset =>
    rw [callOf, pstorageStore]
    split
    · rfl
    split
    · exact hadd dest src data offset
    have herase := @lazyErase_dfu env s dest data.length offset
    dsimp only
    split
    · exact herase
    split
    · exact (hadd dest src data offset).trans herase
    · exact (cmdQueueEnqueue_frame _).dfu.trans herase

theorem act_base {a : Act} {base : Nat} (ha : a.Orderly base) :
    (act env s a).dfu.baseAddress = s.dfu.baseAddress := by
  cases a with
  | dfu change => exact (ha s.dfu).base
  | call c => exact congrArg DfuPages.baseAddress (callOf_dfu c)

theorem kept_safe {base : Nat} (henv : Orderly env base) :
    Kept env fun s => Safe s ∧ s.dfu.baseAddress = base where
  act n a ha h := ⟨act_safe h.1 (h.2 ▸ henv n a ha), (act_base (henv n a ha)).trans h.2⟩
  told _ h := ⟨h.1.congr rfl rfl rfl rfl (.refl _) h.1.unflagged, h.2⟩
  ask h hpos _ hop := ⟨h.1.ask hpos hop, h.2⟩
  popDirect h hpos := ⟨h.1.pop hpos, h.2⟩
  popFailed h hpos hflag := ⟨(h.1.pop hpos).congr rfl rfl rfl rfl (.refl _)
    fun _ _ => h.1.pop_unflagged hpos hflag, h.2⟩
  popErase h hpos hflag := ⟨(h.1.pop hpos).congr rfl rfl rfl rfl (DfuPages.marks_mark _ _)
    fun _ _ => h.1.pop_unflagged hpos (by rw [hflag]; exact fun h => by cases h), h.2⟩
  popStore h hpos hflag := ⟨(h.1.pop hpos).congr rfl rfl rfl rfl (.refl _)
    fun _ _ => h.1.pop_unflagged hpos (by rw [hflag]; exact fun h => by cases h), h.2⟩
  popPending h := ⟨h.1.popPending, h.2⟩
  erase h hrest :=
    have he := lazyErase_safe h.1 hrest.lazy hrest.processing _ _ _
    have hbase := congrArg DfuPages.baseAddress (lazyErase_dfu _ _ _)
    ⟨⟨he.1, hbase.trans h.2⟩, fun hret => ⟨he.2 hret, hbase.trans h.2⟩⟩
  store h hrest hpage :=
    have he := storeFront_safe h.1 hrest hpage
    have hbase := congrArg DfuPages.baseAddress (cmdQueueEnqueue_frame _).dfu
    ⟨⟨he.1, hbase.trans h.2⟩, fun hret => ⟨he.2 hret, hbase.trans h.2⟩⟩
  nextRound h hpos hcover := ⟨h.1.nextRound hpos hcover, h.2⟩

/-! ## Runs -/

variable {es : List Event}

/-- Between the events of the SoftDevice the owners keep to their pages too. -/
def Event.Orderly (base : Nat) : Event → Prop
  | .sys _ _ => True
  | .act a => a.Orderly base

/-- The storage once the DFU layer has laid out `pages`. -/
def prepared (pages : DfuPages) : State := { pstorageInit with dfu := pages }

theorem prepared_safe (hp : pages.Placed) : Safe (prepared pages) := by
  refine ⟨hp, fun i => Nat.zero_le _, fun p h => ?_, fun _ => rfl, fun _ _ => rfl, .nil,
    fun _ _ c h => ?_, fun c h => ?_, fun c h => ?_, fun y h => ?_, fun y h => ?_, .nil⟩
  all_goals cases h

theorem prepared_good : Good env (prepared pages) ∧ Drained (prepared pages) := by
  refine ⟨⟨[], [], .ofEmpty rfl rfl rfl rfl rfl (fun p hp => ?_), fun d hd => ?_, rfl, rfl, rfl⟩,
    fun h => absurd rfl h, fun h => absurd rfl h⟩
  · cases hp
  · cases hd

theorem step_safe {base : Nat} (henv : Orderly env base) {e : Event}
    (hb : IdleWhenEmpty s) (h : Safe s ∧ s.dfu.baseAddress = base)
    (hok : Handled env s e) (he : e.Orderly base) :
    Safe (step env s e) ∧ (step env s e).dfu.baseAddress = base := by
  obtain ⟨s', hs'⟩ := Option.isSome_iff_exists.mp hok
  rw [step, hs', Option.getD_some]
  cases e with
  | sys e fuel =>
    exact (kept_safe henv).handler h ⟨h.1.congr rfl rfl rfl rfl (.refl _) h.1.unflagged, h.2⟩ hb hs'
  | act a =>
    cases hs'
    exact ⟨act_safe h.1 (h.2 ▸ he), (@act_base env s a base he).trans h.2⟩

theorem reached_safe (hp : pages.Placed) (henv : Orderly env pages.baseAddress)
    (h : Lib.Reach (step env) (Handled env) (prepared pages) es s)
    (hes : ∀ e ∈ es, e.Orderly pages.baseAddress) :
    Safe s := by
  have hinit : (Good env (prepared pages) ∧ Drained (prepared pages)) ∧ Safe (prepared pages) ∧
      (prepared pages).dfu.baseAddress = pages.baseAddress := ⟨prepared_good, prepared_safe hp, rfl⟩
  have hinv := (h.and_forall hes).invariant (I := fun s => (Good env s ∧ Drained s) ∧ Safe s ∧
    s.dfu.baseAddress = pages.baseAddress) hinit fun s e h hok => by
      obtain ⟨⟨_, _, hs, _⟩, _⟩ := h.1
      exact ⟨step_good h.1 hok.1, step_safe henv hs.empty h.2 hok.1 hok.2⟩
  exact hinv.2.1

/-- Along every run, the SoftDevice is asked to write into an image page only when the map has it
as erased, at the time of the request and ever after, and no lazy erase covers an address that it
was asked to write before. -/
theorem pages_erased_once (hp : pages.Placed) (henv : Orderly env pages.baseAddress)
    (h : Lib.Reach (step env) (Handled env) (prepared pages) es s)
    (hes : ∀ e ∈ es, e.Orderly pages.baseAddress) :
    (∀ y ∈ s.issued, y.pages.Ready y.op.Writes ∧ s.dfu.Ready y.op.Writes) ∧
      s.issued.Pairwise Survives := by
  have hs := reached_safe hp henv h hes
  exact ⟨fun y hy => ⟨hs.mapped y hy, hs.written y hy⟩, hs.ordered⟩

theorem pages_erased_once_twoStores :
    (∀ y ∈ ((twoStores.drop 1).foldl (step calm) (prepared twoPages)).issued,
      y.pages.Ready y.op.Writes ∧
      ((twoStores.drop 1).foldl (step calm) (prepared twoPages)).dfu.Ready y.op.Writes) ∧
    ((twoStores.drop 1).foldl (step calm) (prepared twoPages)).issued.Pairwise Survives :=
  pages_erased_once ⟨by decide, by decide⟩ (fun _ _ h => by cases h)
    (.of_allowed (fun s e => (handleEvent calm s e).isSome) (fun _ _ h => h) (by decide))
    (by
      intro e he
      simp only [twoStores, List.drop_succ_cons, List.drop_zero, List.mem_cons,
        List.not_mem_nil, or_false] at he
      obtain rfl | rfl | rfl | rfl | rfl := he
      · exact ⟨by decide, by decide, .inl (by decide)⟩
      · exact ⟨by decide, by decide, .inl (by decide)⟩
      all_goals trivial)

end OtaFix.Pstorage

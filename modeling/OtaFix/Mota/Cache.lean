import OtaFix.Mota.Container

/-!
# Page cache and decoder

The verified page rewrite, the write-back cache of one page, the callbacks of the
detools decoder and the approval mark. The decoder is any program over its four
callbacks (`Decoder`): what it asks next may depend on every answer so far.
-/

namespace OtaFix.Mota

open Lib

/-! ## Verified page rewrites -/

def flashPageAttempts : Nat := 3

/-- The loop of `flash_page_change_verified`; no words means an erased page. -/
def pageAttempts (page : Nat) (words : Option (List Byte)) : Nat → MotaM Bool
  | 0 => do
    mark .pageFailed
    return false
  | n + 1 => do
    flErase page
    match words with
    | some d => flWriteWords page d
    | none => pure ()
    let m ← flash
    if slice m page codePageSize = words.getD (List.replicate codePageSize 0xFF) then return true
    else pageAttempts page words n

def flashPageChangeVerified (page : Nat) (words : Option (List Byte)) : MotaM Bool :=
  pageAttempts page words flashPageAttempts

def flashPageWriteVerified (page : Nat) (d : List Byte) : MotaM Bool :=
  flashPageChangeVerified page (some d)

def flashPageEraseVerified (page : Nat) : MotaM Bool := flashPageChangeVerified page none

/-! ## The cache -/

def cacheFlush : MotaM Bool := do
  let g ← getStatics
  if g.cachePage = 0 then return true
  else
    let ok ← (if g.cacheDirty then flashPageWriteVerified g.cachePage g.cache else pure true)
    if !ok then return false
    else
      modifyStatics fun g => { g with cachePage := 0, cacheDirty := false }
      return true

def cacheUse (page : Nat) : MotaM Bool := do
  let g ← getStatics
  if g.cachePage = page then return true
  else
    let ok ← cacheFlush
    if !ok then return false
    else
      let d ← flRead page codePageSize
      modifyStatics fun g => { g with cachePage := page, cacheDirty := false, cache := d }
      return true

/-- `cread`: flash, under the dirty page. -/
def cread (addr n : Nat) : MotaM (List Byte) := do
  let d ← flRead addr n
  let g ← getStatics
  if g.cachePage ≠ 0 ∧ g.cacheDirty then
    let os := max addr g.cachePage
    let oe := min (add32 addr n) (add32 g.cachePage codePageSize)
    if os < oe then
      return memcpy d (os - addr) ((g.cache.drop (os - g.cachePage)).take (oe - os))
    else return d
  else return d

/-- The loop of `cwrite`; every round takes a byte. -/
def cwriteLoop : Nat → Nat → List Byte → MotaM Bool
  | 0, _, _ => return true
  | fuel + 1, addr, src => do
    if src.length = 0 then return true
    else
      let off := addr % codePageSize
      let page := addr - off
      let chunk := min (codePageSize - off) src.length
      let ok ← cacheUse page
      if !ok then return false
      else
        modifyStatics fun g =>
          { g with cache := memcpy g.cache off (src.take chunk), cacheDirty := true }
        cwriteLoop fuel (add32 addr chunk) (src.drop chunk)

def cwrite (addr : Nat) (src : List Byte) : MotaM Bool := cwriteLoop src.length addr src

/-- One page of `cerase`: in the cache when it is there, else in flash. -/
def cerasePage (page : Nat) : MotaM Bool := do
  let g ← getStatics
  if g.cachePage = page then
    modifyStatics fun g => { g with cache := List.replicate codePageSize 0xFF, cacheDirty := true }
    return true
  else flashPageEraseVerified page

/-- The loop of `cerase`: a part of a page erases all of it. -/
def ceraseLoop : Nat → Nat → Nat → MotaM Bool
  | 0, _, _ => return true
  | fuel + 1, addr, n => do
    if n = 0 then return true
    else
      let off := addr % codePageSize
      let page := addr - off
      let step := min (codePageSize - off) n
      let ok ← cerasePage page
      if !ok then return false else ceraseLoop fuel (add32 addr step) (n - step)

def cerase (addr n : Nat) : MotaM Bool := ceraseLoop n addr n

/-! ## The decoder's callbacks -/

/-- `struct apply_ctx`; the position in the patch is passed along. -/
structure ApplyCtx where
  patchAddr : Nat
  patchLen : Nat
  wsLo : Nat
  wsHi : Nat
  deriving DecidableEq, Repr

/-- `dt_ws_addr`: an address of the workspace, with room for `n` bytes. -/
def dtWsAddr (c : ApplyCtx) (off n : Nat) : Option Nat :=
  let span := sub32 c.wsHi c.wsLo
  if 2 ^ 32 - 1 < off ∨ 2 ^ 32 - 1 < n then none
  else if span < off ∨ span - off < n then none
  else some (add32 c.wsLo off)

def dtMr (c : ApplyCtx) (src n : Nat) : MotaM (Option (List Byte)) := do
  match dtWsAddr c src n with
  | none => return none
  | some addr =>
    let d ← cread addr n
    return some d

def dtMw (c : ApplyCtx) (dst : Nat) (src : List Byte) : MotaM Bool := do
  match dtWsAddr c dst src.length with
  | none => return false
  | some addr => cwrite addr src

def dtMe (c : ApplyCtx) (addr0 n : Nat) : MotaM Bool := do
  match dtWsAddr c addr0 n with
  | none => return false
  | some addr => cerase addr n

/-- `dt_pr`, at the patch position `pos`. -/
def dtPr (cfg : Profile) (c : ApplyCtx) (pos n : Nat) : MotaM (Option (List Byte)) := do
  if 2 ^ 32 - 1 < n ∨ c.patchLen < pos ∨ c.patchLen - pos < n then return none
  else stagedRead cfg (add32 c.patchAddr pos) n

/-- A decoder: what it does next, given the answers to its callbacks. -/
inductive Decoder where
  | done (r : Int)
  | memRead (src n : Nat) (k : Option (List Byte) → Decoder)
  | memWrite (dst : Nat) (src : List Byte) (k : Bool → Decoder)
  | memErase (addr n : Nat) (k : Bool → Decoder)
  | patchRead (n : Nat) (k : Option (List Byte) → Decoder)

/-- Run a decoder: its result and the patch position it leaves. -/
def runDecoder (cfg : Profile) (c : ApplyCtx) : Decoder → Nat → MotaM (Int × Nat)
  | .done r, pos => return (r, pos)
  | .memRead src n k, pos => do
    let r ← dtMr c src n
    runDecoder cfg c (k r) pos
  | .memWrite dst src k, pos => do
    let r ← dtMw c dst src
    runDecoder cfg c (k r) pos
  | .memErase addr n k, pos => do
    let r ← dtMe c addr n
    runDecoder cfg c (k r) pos
  | .patchRead n k, pos => do
    let r ← dtPr cfg c pos n
    runDecoder cfg c (k r) (if r.isSome then pos + n else pos)

/-! ## The approval mark -/

/-- `clear_approval`. -/
def clearApproval (cfg : Profile) (m : MotaMin) : MotaM Bool := do
  let g ← getStatics
  if cfg.sdSelected g then return true
  else if cfg.qspiSelected g then otaQspiWrite m.approvalAddr [0, 0, 0, 0]
  else
    let ok ← cwrite m.approvalAddr [0, 0, 0, 0]
    if !ok then return false else cacheFlush

/-- `finish_apply`: release the peripherals. -/
def finishApply (cfg : Profile) (result : Bool) : MotaM Bool := do
  let g ← getStatics
  if cfg.sdCard && (if cfg.rakSdStore then g.sdActive else g.sdSource) then
    otaSdDeinit
    if cfg.rakSdStore then modifyStatics fun g => { g with sdActive := false }
  if cfg.qspiSelected g then otaQspiDeinit
  return result

def failApply (cfg : Profile) (result : Nat) : MotaM Bool := do
  gpregret2Set result
  finishApply cfg false

/-- The loop of `copy_staged_full_image`, from offset `off` on: zero, or an error code.
The first page written is the commit point of a bootloader update. -/
def copyPages (cfg : Profile) (m : MotaMin) (destination : Nat) : Nat → Nat → MotaM Nat
  | 0, _ => return 0
  | fuel + 1, off => do
    if m.imageSize ≤ off then return 0
    else
      let n := min (m.imageSize - off) codePageSize
      modifyStatics fun g => { g with cache := List.replicate codePageSize 0xFF }
      let r ← stagedRead cfg (m.payloadAddr + off) n
      match r with
      | none => return 0xBB
      | some d =>
        let page := d ++ List.replicate (codePageSize - n) 0xFF
        modifyStatics fun g => { g with cache := page }
        mark .commit
        let ok ← flashPageWriteVerified (destination + off) page
        if !ok then return 0xBF else copyPages cfg m destination fuel (off + codePageSize)

def copyStagedFullImage (cfg : Profile) (m : MotaMin) (destination : Nat) : MotaM Nat :=
  copyPages cfg m destination (m.imageSize / codePageSize + 1) 0

end OtaFix.Mota

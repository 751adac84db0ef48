import OtaFix.Mota.Run

/-!
# The header of a patch, read twice

`dt_geometry_ok` reads the five sizes of a detools header before the application is
invalidated; the decoder reads them again, with a reader of its own that is resumable
at every byte. Both take six bits from the first byte of a size and seven from each
other one. The preflight takes a fifth byte as long as the value fits, the decoder takes
four bytes at most: they agree exactly on the headers without a fifth byte
(`mota_header_agrees_iff`).
-/

namespace OtaFix.Mota

open Lib Prog

variable {env : Env} {cfg : Profile} {s s' : Device}

/-! ## The reader of the decoder -/

def detoolsBadPatchType : Int := 3

def detoolsBadCompression : Int := 4

def detoolsCorruptPatch : Int := 9

def detoolsShortHeader : Int := 18

def detoolsCorruptPatchOverflow : Int := 25

/-- `struct detools_apply_patch_size_t`. -/
structure SizeState where
  /-- The next byte is the first of a size. -/
  first : Bool := true
  value : Nat := 0
  offset : Nat := 0
  deriving DecidableEq, Repr

/-- `is_overflow`. -/
def isOverflow (offset : Nat) : Bool := 8 * 4 < offset + 7

/-- The value and the offset behind one more byte. -/
def SizeState.take (st : SizeState) (b : Byte) : SizeState :=
  if st.first then ⟨false, b.toNat % 0x40, 6⟩
  else ⟨false, st.value ||| (b.toNat % 0x80) <<< st.offset, st.offset + 7⟩

/-- `chunk_unpack_header_size`: the result, what is left of the chunk, and the state; on
success the size is its value. The result is 1 when the chunk ends. -/
def chunkUnpackHeaderSize : List Byte → SizeState → Int × List Byte × SizeState
  | [], st => (1, [], st)
  | b :: chunk, st =>
    if !st.first && isOverflow st.offset then (-detoolsCorruptPatchOverflow, chunk, st)
    else if b.toNat < 0x80 then (0, chunk, { st.take b with first := true })
    else chunkUnpackHeaderSize chunk (st.take b)

inductive InitState where
  | fixedHeader
  | memorySize
  | segmentSize
  | shiftSize
  | fromSize
  | toSize
  deriving DecidableEq, Repr

inductive PatchState where
  | init
  /-- The header is read, and the memory is to be shifted. -/
  | shift
  | done
  | failed (res : Int)
  deriving DecidableEq, Repr

/-- `struct detools_apply_patch_in_place_t`, as far as its header goes. -/
structure InPlace where
  state : PatchState := .init
  initState : InitState := .fixedHeader
  size : SizeState := {}
  compression : Nat := 0
  memorySize : Nat := 0
  segmentSize : Nat := 0
  shiftSize : Nat := 0
  fromSize : Nat := 0
  toSize : Nat := 0
  deriving DecidableEq, Repr

def inPlaceProcessInitFixedHeader (chunk : List Byte) (p : InPlace) : Int × List Byte × InPlace :=
  match chunk with
  | [] => (-detoolsShortHeader, [], p)
  | b :: chunk =>
    let p := { p with compression := b.toNat % 16 }
    if b.toNat / 16 % 8 ≠ 1 then (-detoolsBadPatchType, chunk, p)
    else (0, chunk, { p with initState := .memorySize, size := { p.size with first := true } })

/-- The field that a size is stored in, and the state behind it. -/
def InPlace.store (p : InPlace) (value : Nat) : InPlace :=
  match p.initState with
  | .memorySize => { p with memorySize := value, initState := .segmentSize }
  | .segmentSize => { p with segmentSize := value, initState := .shiftSize }
  | .shiftSize => { p with shiftSize := value, initState := .fromSize }
  | .fromSize => { p with fromSize := value, initState := .toSize }
  | _ => p

def inPlaceProcessInitGeometry (chunk : List Byte) (p : InPlace) : Int × List Byte × InPlace :=
  let (res, chunk, size) := chunkUnpackHeaderSize chunk p.size
  let p := { p with size := size }
  if res ≠ 0 then (res, chunk, p) else (0, chunk, p.store size.value)

/-- `patch_reader_init`: the build has the CRLE reader only. -/
def patchReaderInit (compression : Nat) : Int :=
  if compression = 2 then 0 else -detoolsBadCompression

def inPlaceProcessInitToSize (chunk : List Byte) (p : InPlace) : Int × List Byte × InPlace :=
  let (res, chunk, size) := chunkUnpackHeaderSize chunk p.size
  let p := { p with size := size }
  if res ≠ 0 then (res, chunk, p)
  else if patchReaderInit p.compression ≠ 0 then (patchReaderInit p.compression, chunk, p)
  else if 2 ^ 31 ≤ size.value then (-detoolsCorruptPatch, chunk, p)
  else (0, chunk,
    { p with toSize := size.value, state := if 0 < size.value then .shift else .done })

def inPlaceProcessInit (chunk : List Byte) (p : InPlace) : Int × List Byte × InPlace :=
  match p.initState with
  | .fixedHeader => inPlaceProcessInitFixedHeader chunk p
  | .toSize => inPlaceProcessInitToSize chunk p
  | _ => inPlaceProcessInitGeometry chunk p

/-- `detools_apply_patch_in_place_process` up to the end of the header: what is left of
the chunk, and the state. Every round takes a byte. -/
def processHeader : Nat → List Byte → InPlace → List Byte × InPlace
  | 0, chunk, p => (chunk, p)
  | fuel + 1, chunk, p =>
    if chunk = [] ∨ p.state ≠ .init then (chunk, p)
    else
      let (res, chunk, p) := inPlaceProcessInit chunk p
      if res < 0 then (chunk, { p with state := .failed res })
      else processHeader fuel chunk p

/-- `in_place_callbacks_process` up to the end of the header: the bytes taken from the
patch, read in chunks of 512, and the state. -/
def feedHeader : Nat → List Byte → Nat → InPlace → Nat × InPlace
  | 0, _, used, p => (used, p)
  | fuel + 1, patch, used, p =>
    if patch = [] ∨ p.state ≠ .init then (used, p)
    else
      let chunk := patch.take 512
      let (left, p) := processHeader chunk.length chunk p
      feedHeader fuel (patch.drop 512) (used + (chunk.length - left.length)) p

def readHeader (patch : List Byte) : Nat × InPlace := feedHeader patch.length patch 0 {}

/-! ## The reader of the preflight -/

/-- The loop of `dt_header_u32` on bytes: the value, and the bytes behind it. -/
def headerRest : List Byte → Byte → Nat → Nat → Option (Nat × List Byte)
  | l, b, v, shift =>
    if b.toNat < 0x80 then if v ≤ 0x7FFFFFFF then some (v, l) else none
    else
      match l with
      | [] => none
      | b :: l =>
        if 32 ≤ shift ∨ (2 ^ 32 - 1) / 2 ^ shift < b.toNat % 0x80 then none
        else headerRest l b (v ||| (b.toNat % 0x80) <<< shift) (shift + 7)

def headerSize : List Byte → Option (Nat × List Byte)
  | [] => none
  | b :: l => headerRest l b (b.toNat % 0x40) 6

/-- The `n` sizes at the start of the bytes, and the bytes behind them. -/
def headerSizes : Nat → List Byte → Option (List Nat × List Byte)
  | 0, l => some ([], l)
  | n + 1, l =>
    (headerSize l).bind fun (v, l) => (headerSizes n l).map fun (vs, l) => (v :: vs, l)

/-- The bytes of the size at the start: those with the top bit, and one more. -/
def sizeBytes (l : List Byte) : Nat := (l.takeWhile fun b => 0x80 ≤ b.toNat).length + 1

/-- None of the `n` sizes takes a fifth byte. -/
def Short : Nat → List Byte → Prop
  | 0, _ => True
  | n + 1, l => sizeBytes l ≤ 4 ∧ Short n (l.drop (sizeBytes l))

instance decidableShort : ∀ n l, Decidable (Short n l)
  | 0, _ => .isTrue trivial
  | n + 1, l =>
    have := decidableShort n (l.drop (sizeBytes l))
    inferInstanceAs (Decidable (_ ∧ _))

/-! ## One size -/

theorem sizeBytes_cons {b : Byte} {l : List Byte} :
    sizeBytes (b :: l) = if b.toNat < 0x80 then 1 else sizeBytes l + 1 := by
  unfold sizeBytes
  by_cases h : b.toNat < 0x80
  · rw [if_pos h, List.takeWhile_cons_of_neg (by simpa using h)]
    rfl
  · rw [if_neg h, List.takeWhile_cons_of_pos (by simpa using h)]
    rfl

/-- What the two readers do with the bytes `bs` behind the byte `b` of a size. -/
structure Agrees (b : Byte) (v shift w : Nat) (bs : List Byte) : Prop where
  value : w ≤ 0x7FFFFFFF
  last : bs ≠ [] → shift + 7 * (bs.length - 1) < 32
  single : b.toNat < 0x80 → bs = [] ∧ w = v
  reads : 0x80 ≤ b.toNat → shift + 7 * bs.length ≤ 32 → ∀ rest, ∃ off,
    chunkUnpackHeaderSize (bs ++ rest) ⟨false, v, shift⟩ = (0, rest, ⟨true, w, off⟩)
  refuses : 0x80 ≤ b.toNat → 32 < shift + 7 * bs.length → ∀ rest,
    (chunkUnpackHeaderSize (bs ++ rest) ⟨false, v, shift⟩).1 = -detoolsCorruptPatchOverflow

theorem headerRest_agrees {l rest : List Byte} {b : Byte} {v shift w : Nat}
    (h : headerRest l b v shift = some (w, rest)) :
    ∃ bs, l = bs ++ rest ∧ sizeBytes (b :: l) = bs.length + 1 ∧ Agrees b v shift w bs := by
  induction l generalizing b v shift with
  | nil =>
    unfold headerRest at h
    by_cases hb : b.toNat < 0x80
    · rw [if_pos hb, Option.ite_none_right_eq_some] at h
      obtain ⟨hv, h⟩ := h
      obtain ⟨rfl, rfl⟩ := Prod.mk.inj (Option.some.inj h)
      refine ⟨[], rfl, by rw [sizeBytes_cons, if_pos hb]; rfl, hv, fun hn => absurd rfl hn,
        fun _ => ⟨rfl, rfl⟩, fun hb' => by omega, fun hb' => by omega⟩
    · rw [if_neg hb] at h
      cases h
  | cons b' l ih =>
    unfold headerRest at h
    by_cases hb : b.toNat < 0x80
    · rw [if_pos hb, Option.ite_none_right_eq_some] at h
      obtain ⟨hv, h⟩ := h
      obtain ⟨rfl, rfl⟩ := Prod.mk.inj (Option.some.inj h)
      refine ⟨[], rfl, by rw [sizeBytes_cons, if_pos hb]; rfl, hv, fun hn => absurd rfl hn,
        fun _ => ⟨rfl, rfl⟩, fun hb' => by omega, fun hb' => by omega⟩
    · rw [if_neg hb] at h
      simp only at h
      rw [Option.ite_none_left_eq_some] at h
      obtain ⟨hshift, h⟩ := h
      rw [not_or] at hshift
      obtain ⟨bs, hl, hsize, hbs⟩ := ih h
      have htake : SizeState.take ⟨false, v, shift⟩ b' =
          ⟨false, v ||| (b'.toNat % 0x80) <<< shift, shift + 7⟩ := rfl
      refine ⟨b' :: bs, by rw [hl]; rfl, ?_, hbs.value, fun _ => ?_, fun hb' => absurd hb' hb,
        fun _ hle rest => ?_, fun _ hgt rest => ?_⟩
      · rw [sizeBytes_cons, if_neg hb, hsize]
        rfl
      · by_cases hnil : bs = []
        · subst hnil
          exact Nat.lt_of_not_le hshift.1
        · have := hbs.last hnil
          have hpos : 0 < bs.length := List.length_pos_iff.mpr hnil
          rw [List.length_cons]
          omega
      · -- the decoder takes the byte as well
        have hover : isOverflow shift = false := by
          rw [isOverflow, decide_eq_false_iff_not]
          rw [List.length_cons] at hle
          omega
        rw [List.cons_append, chunkUnpackHeaderSize, if_neg (by simp [hover]), htake]
        by_cases hb' : b'.toNat < 0x80
        · rw [if_pos hb']
          obtain ⟨rfl, rfl⟩ := hbs.single hb'
          exact ⟨shift + 7, rfl⟩
        · rw [if_neg hb']
          exact hbs.reads (Nat.le_of_not_lt hb') (by rw [List.length_cons] at hle; omega) rest
      · rw [List.cons_append, chunkUnpackHeaderSize]
        by_cases hover : isOverflow shift = true
        · rw [if_pos (by simp [hover])]
        · rw [if_neg (by simp [hover]), htake]
          have hle : shift + 7 ≤ 32 := by simpa [isOverflow] using hover
          by_cases hb' : b'.toNat < 0x80
          · obtain ⟨rfl, -⟩ := hbs.single hb'
            simp only [List.length_cons, List.length_nil] at hgt
            omega
          · rw [if_neg hb']
            exact hbs.refuses (Nat.le_of_not_lt hb') (by rw [List.length_cons] at hgt; omega) rest

/-- The bytes `bs` of one size, as the two readers see them. -/
structure SizeAt (v : Nat) (bs : List Byte) : Prop where
  value : v ≤ 0x7FFFFFFF
  length : 0 < bs.length ∧ bs.length ≤ 5
  reads : bs.length ≤ 4 → ∀ rest st, st.first = true → ∃ off,
    chunkUnpackHeaderSize (bs ++ rest) st = (0, rest, ⟨true, v, off⟩)
  refuses : 4 < bs.length → ∀ rest st, st.first = true →
    (chunkUnpackHeaderSize (bs ++ rest) st).1 = -detoolsCorruptPatchOverflow

theorem headerSize_agrees {l rest : List Byte} {v : Nat} (h : headerSize l = some (v, rest)) :
    ∃ bs, l = bs ++ rest ∧ sizeBytes l = bs.length ∧ SizeAt v bs := by
  cases l with
  | nil => cases h
  | cons b l =>
    obtain ⟨bs, rfl, hsize, hbs⟩ := headerRest_agrees h
    have hlen : bs.length ≤ 4 := by
      by_cases hnil : bs = []
      · simp [hnil]
      · have := hbs.last hnil
        omega
    have htake : ∀ st : SizeState, st.first = true → st.take b = ⟨false, b.toNat % 0x40, 6⟩ := by
      intro st hst
      rw [SizeState.take, if_pos hst]
    refine ⟨b :: bs, rfl, hsize, hbs.value, by rw [List.length_cons]; omega,
      fun hle rest st hst => ?_, fun hgt rest st hst => ?_⟩
    · rw [List.cons_append, chunkUnpackHeaderSize, if_neg (by simp [hst]), htake st hst]
      by_cases hb : b.toNat < 0x80
      · rw [if_pos hb]
        obtain ⟨rfl, rfl⟩ := hbs.single hb
        exact ⟨6, rfl⟩
      · rw [if_neg hb]
        exact hbs.reads (Nat.le_of_not_lt hb) (by rw [List.length_cons] at hle; omega) rest
    · rw [List.length_cons] at hgt
      rw [List.cons_append, chunkUnpackHeaderSize, if_neg (by simp [hst]), htake st hst]
      by_cases hb : b.toNat < 0x80
      · obtain ⟨rfl, -⟩ := hbs.single hb
        simp at hgt
      · rw [if_neg hb]
        exact hbs.refuses (Nat.le_of_not_lt hb) (by omega) rest

/-! ## The header -/

section Header

variable {p : InPlace} {v : Nat} {bs : List Byte}

theorem processHeader_ended (h : p.state ≠ .init) (n : Nat) (chunk : List Byte) :
    processHeader n chunk p = (chunk, p) := by
  cases n with
  | zero => rfl
  | succ n => rw [processHeader, if_pos (.inr h)]

theorem SizeAt.ne_nil (h : SizeAt v bs) (rest : List Byte) : bs ++ rest ≠ [] := by
  intro hnil
  have := h.length.1
  rw [(List.append_eq_nil_iff.mp hnil).1] at this
  exact Nat.lt_irrefl 0 this

/-- One of the first four sizes. -/
theorem SizeAt.geometry (h : SizeAt v bs) (hle : bs.length ≤ 4) (hs : p.state = .init)
    (hf : p.size.first = true) (h1 : p.initState ≠ .fixedHeader) (h2 : p.initState ≠ .toSize)
    (n : Nat) (rest : List Byte) :
    ∃ off, processHeader (n + 1) (bs ++ rest) p =
      processHeader n rest ({ p with size := ⟨true, v, off⟩ }.store v) := by
  obtain ⟨off, hread⟩ := h.reads hle rest p.size hf
  have hinit : inPlaceProcessInit (bs ++ rest) p =
      (0, rest, { p with size := ⟨true, v, off⟩ }.store v) := by
    unfold inPlaceProcessInit
    split
    · exact absurd ‹_› h1
    · exact absurd ‹_› h2
    · unfold inPlaceProcessInitGeometry
      rw [hread]
      rfl
  refine ⟨off, ?_⟩
  rw [processHeader, if_neg (not_or.mpr ⟨h.ne_nil rest, not_not.mpr hs⟩), hinit]
  rfl

/-- A size with a fifth byte stops the decoder. -/
theorem SizeAt.stops (h : SizeAt v bs) (hgt : 4 < bs.length) (hs : p.state = .init)
    (hf : p.size.first = true) (h1 : p.initState ≠ .fixedHeader) (n : Nat) (rest : List Byte) :
    (processHeader (n + 1) (bs ++ rest) p).2.state = .failed (-detoolsCorruptPatchOverflow) := by
  have hread := h.refuses hgt rest p.size hf
  have hinit : (inPlaceProcessInit (bs ++ rest) p).1 = -detoolsCorruptPatchOverflow := by
    have hne : -detoolsCorruptPatchOverflow ≠ 0 := by decide
    unfold inPlaceProcessInit
    split
    · exact absurd ‹_› h1
    · unfold inPlaceProcessInitToSize
      simp only [hread, if_pos hne]
    · unfold inPlaceProcessInitGeometry
      simp only [hread, if_pos hne]
  rw [processHeader, if_neg (not_or.mpr ⟨h.ne_nil rest, not_not.mpr hs⟩)]
  simp only [hinit]
  rfl

theorem SizeAt.toSize (h : SizeAt v bs) (hle : bs.length ≤ 4) (hs : p.state = .init)
    (hf : p.size.first = true) (h1 : p.initState = .toSize) (hc : p.compression = 2)
    (n : Nat) (rest : List Byte) :
    ∃ off, processHeader (n + 1) (bs ++ rest) p =
      (rest, { p with
        size := ⟨true, v, off⟩, toSize := v, state := if 0 < v then .shift else .done }) := by
  obtain ⟨off, hread⟩ := h.reads hle rest p.size hf
  have hvalue := h.value
  have hinit : inPlaceProcessInit (bs ++ rest) p = (0, rest, { p with
      size := ⟨true, v, off⟩, toSize := v, state := if 0 < v then .shift else .done }) := by
    unfold inPlaceProcessInit
    simp only [h1]
    unfold inPlaceProcessInitToSize
    rw [hread]
    simp only [patchReaderInit, hc, if_true, ne_eq, not_true, if_false]
    rw [if_neg (by omega), h1]
  refine ⟨off, ?_⟩
  rw [processHeader, if_neg (not_or.mpr ⟨h.ne_nil rest, not_not.mpr hs⟩), hinit]
  change processHeader n rest _ = _
  refine processHeader_ended ?_ _ _
  simp only
  split_ifs <;> nofun

end Header

/-- The decoder has read the header, with these sizes. -/
structure Decoded (p : InPlace) (sizes : List Nat) : Prop where
  state : p.state = .shift ∨ p.state = .done
  memory : p.memorySize = sizes.getD 0 0
  segment : p.segmentSize = sizes.getD 1 0
  shift : p.shiftSize = sizes.getD 2 0
  source : p.fromSize = sizes.getD 3 0
  target : p.toSize = sizes.getD 4 0

theorem Decoded.not_failed {p : InPlace} {sizes : List Nat} {res : Int} (h : Decoded p sizes)
    (hf : p.state = .failed res) : False := by
  rcases h.state with hs | hs <;> rw [hs] at hf <;> cases hf

/-- The bytes of `n` sizes. -/
inductive SizesAt : List Nat → List (List Byte) → Prop where
  | nil : SizesAt [] []
  | cons {v : Nat} {bs : List Byte} {vs : List Nat} {bss : List (List Byte)} :
      SizeAt v bs → SizesAt vs bss → SizesAt (v :: vs) (bs :: bss)

theorem headerSizes_agree {n : Nat} {l rest : List Byte} {sizes : List Nat}
    (h : headerSizes n l = some (sizes, rest)) : ∃ bss, l = bss.flatten ++ rest ∧
      SizesAt sizes bss ∧ bss.length = n ∧ (Short n l ↔ ∀ bs ∈ bss, bs.length ≤ 4) := by
  induction n generalizing l sizes with
  | zero =>
    obtain ⟨rfl, rfl⟩ := Prod.mk.inj (Option.some.inj h)
    exact ⟨[], rfl, .nil, rfl, ⟨fun _ bs hb => absurd hb List.not_mem_nil, fun _ => trivial⟩⟩
  | succ n ih =>
    obtain ⟨⟨v, l'⟩, hsize, h⟩ := Option.bind_eq_some_iff.mp h
    obtain ⟨⟨vs, rest'⟩, hrest, heq⟩ := Option.map_eq_some_iff.mp h
    obtain ⟨rfl, rfl⟩ := Prod.mk.inj heq
    obtain ⟨bs, rfl, hlen, hat⟩ := headerSize_agrees hsize
    obtain ⟨bss, rfl, hats, hn, hshort⟩ := ih hrest
    refine ⟨bs :: bss, by simp, .cons hat hats, by rw [List.length_cons, hn], ?_⟩
    rw [Short, hlen, List.drop_left, hshort, List.forall_mem_cons]

/-- The sizes that are still to be read. -/
def InitState.left : InitState → Nat
  | .fixedHeader => 0
  | .memorySize => 5
  | .segmentSize => 4
  | .shiftSize => 3
  | .fromSize => 2
  | .toSize => 1

/-- The sizes that were read. -/
def InPlace.known (p : InPlace) : List Nat :=
  [p.memorySize, p.segmentSize, p.shiftSize, p.fromSize].take (5 - p.initState.left)

theorem InPlace.store_known {p : InPlace} {n : Nat} (v : Nat) (h : p.initState.left = n + 2) :
    (p.store v).known = p.known ++ [v] ∧ (p.store v).initState.left = n + 1 ∧
      (p.store v).state = p.state ∧ (p.store v).size = p.size ∧
      (p.store v).compression = p.compression := by
  unfold InPlace.known InPlace.store
  cases hi : p.initState <;> rw [hi] at h <;> simp only [InitState.left] at h
  all_goals try omega
  all_goals exact ⟨rfl, by simp only [InitState.left]; omega, rfl, rfl, rfl⟩

/-- The rest of the header, from a state in which some sizes are known. -/
theorem processHeader_sizes {vs : List Nat} {bss : List (List Byte)} (h : SizesAt vs bss)
    (rest : List Byte) (n : Nat) : ∀ p : InPlace, p.state = .init → p.size.first = true →
      p.compression = 2 → p.initState ≠ .fixedHeader → p.initState.left = vs.length →
    ((∀ bs ∈ bss, bs.length ≤ 4) → ∃ p',
      processHeader (n + vs.length) (bss.flatten ++ rest) p = (rest, p') ∧
      (p'.state = .shift ∨ p'.state = .done) ∧ p'.initState = .toSize ∧
      p'.known ++ [p'.toSize] = p.known ++ vs) ∧
    ((∃ bs ∈ bss, 4 < bs.length) →
      (processHeader (n + vs.length) (bss.flatten ++ rest) p).2.state =
        .failed (-detoolsCorruptPatchOverflow)) := by
  induction h with
  | nil =>
    intro p _ _ _ hfixed hleft
    cases hi : p.initState <;> rw [hi] at hleft hfixed <;> first | exact absurd rfl hfixed | cases hleft
  | @cons v bs vs bss hat hats ih =>
    intro p hs hf hc hfixed hleft
    rw [List.flatten_cons, List.append_assoc, List.length_cons, ← Nat.add_assoc]
    by_cases hle : bs.length ≤ 4
    swap
    · refine ⟨fun hall => absurd (hall bs List.mem_cons_self) hle, fun _ => ?_⟩
      exact hat.stops (Nat.lt_of_not_le hle) hs hf hfixed _ _
    cases vs with
    | nil =>
      cases hats
      have hto : p.initState = .toSize := by
        cases hi : p.initState <;> rw [hi] at hleft hfixed <;>
          first | rfl | exact absurd rfl hfixed | cases hleft
      obtain ⟨off, e⟩ := hat.toSize hle hs hf hto hc n rest
      refine ⟨fun _ => ⟨_, e, ?_, hto, rfl⟩, fun ⟨bs', hmem, hgt⟩ => ?_⟩
      · simp only
        split_ifs
        · exact .inl rfl
        · exact .inr rfl
      · rw [List.mem_singleton.mp hmem] at hgt
        omega
    | cons v' vs =>
      have hgeo : p.initState ≠ .toSize := fun hi => by rw [hi] at hleft; cases hleft
      obtain ⟨off, e⟩ := hat.geometry hle hs hf hfixed hgeo (n + (vs.length + 1)) (bss.flatten ++ rest)
      obtain ⟨hknown, hleft', hs', hsize', hc'⟩ :=
        InPlace.store_known (p := { p with size := ⟨true, v, off⟩ }) v hleft
      obtain ⟨hshort, hlong⟩ := ih _ (hs'.trans hs) (by rw [hsize']) (hc'.trans hc)
        (fun hi => by rw [hi] at hleft'; cases hleft') hleft'
      rw [List.length_cons] at hshort hlong ⊢
      rw [e]
      refine ⟨fun hall => ?_, fun ⟨bs', hmem, hgt⟩ => ?_⟩
      · obtain ⟨p', e', hstate, hto, hvalues⟩ :=
          hshort fun bs' hmem => hall bs' (List.mem_cons_of_mem _ hmem)
        refine ⟨p', e', hstate, hto, hvalues.trans ?_⟩
        rw [hknown, List.append_assoc]
        rfl
      · rcases List.mem_cons.mp hmem with rfl | hmem
        · omega
        · exact hlong ⟨bs', hmem, hgt⟩

/-- The header as the decoder reads it from one chunk. -/
theorem processHeader_agrees {fixed : Byte} {sizes : List Nat} {bss : List (List Byte)}
    (htype : fixed.toNat / 16 % 8 = 1) (hcomp : fixed.toNat % 16 = 2) (h : SizesAt sizes bss)
    (hlen : sizes.length = 5) (rest : List Byte) (n : Nat) :
    ((∀ bs ∈ bss, bs.length ≤ 4) → ∃ p',
      processHeader (n + 6) (fixed :: (bss.flatten ++ rest)) {} = (rest, p') ∧ Decoded p' sizes) ∧
    ((∃ bs ∈ bss, 4 < bs.length) →
      (processHeader (n + 6) (fixed :: (bss.flatten ++ rest)) {}).2.state =
        .failed (-detoolsCorruptPatchOverflow)) := by
  have hfixed : ∀ chunk, processHeader (n + 6) (fixed :: chunk) {} =
      processHeader (n + 5) chunk { compression := 2, initState := .memorySize } := by
    intro chunk
    rw [processHeader, if_neg (by simp)]
    simp only [inPlaceProcessInit, inPlaceProcessInitFixedHeader, htype, hcomp]
    rfl
  have hsizes := processHeader_sizes h rest n { compression := 2, initState := .memorySize } rfl rfl rfl
    nofun hlen.symm
  rw [hlen] at hsizes
  rw [hfixed]
  refine ⟨fun hall => ?_, hsizes.2⟩
  obtain ⟨p', e, hstate, hto, hvalues⟩ := hsizes.1 hall
  have hknown : p'.known = [p'.memorySize, p'.segmentSize, p'.shiftSize, p'.fromSize] := by
    rw [InPlace.known, hto]
    rfl
  rw [hknown] at hvalues
  refine ⟨p', e, hstate, ?_, ?_, ?_, ?_, ?_⟩ <;> rw [show sizes = _ from hvalues.symm] <;> rfl

/-! ## The whole patch -/

theorem SizesAt.length {sizes : List Nat} {bss : List (List Byte)} (h : SizesAt sizes bss) :
    sizes.length = bss.length ∧ bss.length ≤ bss.flatten.length ∧
      bss.flatten.length ≤ 5 * bss.length := by
  induction h with
  | nil => exact ⟨rfl, Nat.le_refl _, Nat.le_refl _⟩
  | cons hat hats ih =>
    have := hat.length
    simp only [List.length_cons, List.flatten_cons, List.length_append]
    omega

theorem feedHeader_ended {p : InPlace} (h : p.state ≠ .init) (n used : Nat) (patch : List Byte) :
    feedHeader n patch used p = (used, p) := by
  cases n with
  | zero => rfl
  | succ n => rw [feedHeader, if_pos (.inr h)]

/-- The decoder takes the same sizes from the same bytes exactly when none is too long. -/
theorem readHeader_agrees {fixed : Byte} {l rest : List Byte} {sizes : List Nat}
    (htype : fixed.toNat / 16 % 8 = 1) (hcomp : fixed.toNat % 16 = 2)
    (h : headerSizes 5 l = some (sizes, rest)) :
    ((readHeader (fixed :: l)).1 = 1 + (l.length - rest.length) ∧
      Decoded (readHeader (fixed :: l)).2 sizes) ↔ Short 5 l := by
  obtain ⟨bss, rfl, hat, hlen, hshort⟩ := headerSizes_agree h
  obtain ⟨h1, h2, h3⟩ := hat.length
  rw [hshort]
  -- the header lies in the first chunk
  have hchunk : (fixed :: (bss.flatten ++ rest)).take 512 =
      fixed :: (bss.flatten ++ rest.take (511 - bss.flatten.length)) := by
    rw [List.take_succ_cons, List.take_append, List.take_of_length_le (by omega)]
  obtain ⟨n, hn⟩ : ∃ n, ((fixed :: (bss.flatten ++ rest)).take 512).length = n + 6 := by
    refine ⟨((fixed :: (bss.flatten ++ rest)).take 512).length - 6, ?_⟩
    rw [hchunk]
    simp only [List.length_cons, List.length_append]
    omega
  have hread : readHeader (fixed :: (bss.flatten ++ rest)) =
      feedHeader (bss.flatten ++ rest).length ((fixed :: (bss.flatten ++ rest)).drop 512)
        (0 + (((fixed :: (bss.flatten ++ rest)).take 512).length -
          (processHeader (n + 6) ((fixed :: (bss.flatten ++ rest)).take 512) {}).1.length))
        (processHeader (n + 6) ((fixed :: (bss.flatten ++ rest)).take 512) {}).2 := by
    rw [readHeader, List.length_cons, feedHeader, if_neg (by simp)]
    simp only [hn]
  obtain ⟨hall, hlong⟩ := processHeader_agrees htype hcomp hat (h1.trans hlen)
    (rest.take (511 - bss.flatten.length)) n
  rw [hread]
  constructor
  · rintro ⟨-, hdec⟩ bs hbs
    by_contra hgt
    have hfail := hlong ⟨bs, hbs, Nat.lt_of_not_le hgt⟩
    rw [← hchunk] at hfail
    rw [feedHeader_ended (by rw [hfail]; nofun)] at hdec
    exact hdec.not_failed hfail
  · intro hle
    obtain ⟨p', e, hdec⟩ := hall hle
    have hne : p'.state ≠ .init := by rcases hdec.state with hs | hs <;> rw [hs] <;> nofun
    rw [hchunk, e, feedHeader_ended hne]
    refine ⟨?_, hdec⟩
    simp only [List.length_cons, List.length_append]
    omega

/-! ## The preflight of a run -/

section Preflight

variable {addr len : Nat}

/-- The bytes of the staged payload. -/
def payloadBytes (env : Env) (cfg : Profile) (s : Device) (addr len : Nat) : List Byte :=
  slice (sourceByte env cfg s) addr len

theorem payloadBytes_still (h : Still s s') :
    payloadBytes env cfg s' addr len = payloadBytes env cfg s addr len := by
  rw [payloadBytes, sourceByte_still h, payloadBytes]

theorem payloadBytes_drop {pos : Nat} (h : pos < len) : (payloadBytes env cfg s addr len).drop pos =
    sourceByte env cfg s (addr + pos) :: (payloadBytes env cfg s addr len).drop (pos + 1) := by
  rw [payloadBytes, List.drop_eq_getElem_cons (by rw [slice_length]; exact h)]
  congr 1
  have := slice_getElem? (m := sourceByte env cfg s) (a := addr) h
  rwa [List.getElem?_eq_getElem (by rw [slice_length]; exact h), Option.some.injEq] at this

/-- A read of one byte of a stable payload. -/
theorem Holds.byte {pos : Nat} {d : List Byte} (h : Holds env cfg s (addr + pos) 1 (some d))
    (hst : env.Stable) : d.getD 0 0 = sourceByte env cfg s (addr + pos) := by
  rw [(h d rfl).2 hst]
  rfl

theorem dtHeaderLoop_spec (fuel pos v shift : Nat) (b : Byte) (s : Device) :
    (dtHeaderLoop cfg addr len fuel pos v shift b).Sat (handler env) (Reads cfg) (fun r s' =>
      (∀ w pos', r = some (w, pos') → env.Stable →
        headerRest ((payloadBytes env cfg s addr len).drop pos) b v shift =
          some (w, (payloadBytes env cfg s addr len).drop pos')) ∧ Still s s') s := by
  induction fuel generalizing pos v shift b s with
  | zero => exact ⟨nofun, .refl s⟩
  | succ fuel ih =>
    unfold dtHeaderLoop
    by_cases hb : b.toNat < 0x80
    · rw [if_pos hb]
      refine ⟨fun w pos' hr _ => ?_, .refl s⟩
      rw [Option.ite_none_right_eq_some] at hr
      obtain ⟨hv, hr⟩ := hr
      obtain ⟨rfl, rfl⟩ := Prod.mk.inj (Option.some.inj hr)
      unfold headerRest
      rw [if_pos hb, if_pos hv]
    · rw [if_neg hb]
      by_cases hlen : len ≤ pos
      · rw [if_pos hlen]
        exact ⟨nofun, .refl s⟩
      rw [if_neg hlen]
      refine (stagedRead_spec (addr + pos) 1).bind fun r s1 h1 => ?_
      obtain ⟨hbyte, h1⟩ := h1
      cases r with
      | none => exact ⟨nofun, h1⟩
      | some d =>
        simp only
        split_ifs with hshift
        · exact ⟨nofun, h1⟩
        refine (ih (pos + 1) _ (shift + 7) (d.getD 0 0) s1).post fun r s2 h2 => ⟨fun w pos' hr hst => ?_,
          h1.trans h2.2⟩
        have hd := hbyte.byte hst
        have hrest := h2.1 w pos' hr hst
        rw [payloadBytes_still h1, hd] at hrest
        rw [payloadBytes_drop (Nat.lt_of_not_le hlen), headerRest, if_neg hb]
        rw [hd] at hshift
        rw [if_neg hshift]
        exact hrest

theorem dtHeaderU32_spec (pos : Nat) (s : Device) :
    (dtHeaderU32 cfg addr len pos).Sat (handler env) (Reads cfg) (fun r s' =>
      (∀ w pos', r = some (w, pos') → env.Stable →
        headerSize ((payloadBytes env cfg s addr len).drop pos) =
          some (w, (payloadBytes env cfg s addr len).drop pos')) ∧ Still s s') s := by
  unfold dtHeaderU32
  by_cases hlen : len ≤ pos
  · rw [if_pos hlen]
    exact ⟨nofun, .refl s⟩
  rw [if_neg hlen]
  refine (stagedRead_spec (addr + pos) 1).bind fun r s1 h1 => ?_
  obtain ⟨hbyte, h1⟩ := h1
  cases r with
  | none => exact ⟨nofun, h1⟩
  | some d =>
    refine (dtHeaderLoop_spec 7 (pos + 1) _ 6 (d.getD 0 0) s1).post fun r s2 h2 =>
      ⟨fun w pos' hr hst => ?_, h1.trans h2.2⟩
    have hrest := h2.1 w pos' hr hst
    rw [payloadBytes_still h1, hbyte.byte hst] at hrest
    rw [payloadBytes_drop (Nat.lt_of_not_le hlen)]
    exact hrest

theorem dtHeaderSizes_spec (n pos : Nat) (s : Device) :
    (dtHeaderSizes cfg addr len n pos).Sat (handler env) (Reads cfg) (fun r s' =>
      (∀ sizes, r = some sizes → env.Stable → ∃ rest,
        headerSizes n ((payloadBytes env cfg s addr len).drop pos) = some (sizes, rest)) ∧
      Still s s') s := by
  induction n generalizing pos s with
  | zero =>
    refine ⟨fun sizes hr _ => ?_, .refl s⟩
    obtain rfl := Option.some.inj hr
    exact ⟨_, rfl⟩
  | succ n ih =>
    unfold dtHeaderSizes
    refine (dtHeaderU32_spec pos s).bind fun r s1 h1 => ?_
    cases r with
    | none => exact ⟨nofun, h1.2⟩
    | some x =>
      refine (ih x.2 s1).bind fun r s2 h2 => ⟨fun sizes hr hst => ?_, h1.2.trans h2.2⟩
      obtain ⟨vs, hvs, rfl⟩ := Option.map_eq_some_iff.mp hr
      obtain ⟨rest, hrest⟩ := h2.1 vs hvs hst
      rw [payloadBytes_still h1.2] at hrest
      refine ⟨rest, ?_⟩
      rw [headerSizes, h1.1 x.1 x.2 rfl hst]
      simp only [Option.bind_some, hrest, Option.map_some]

end Preflight

/-- What an accepted preflight has read. -/
theorem dtGeometryOk_spec (m : MotaMin) (bodyLen wsSpan : Nat) (s : Device) :
    (dtGeometryOk cfg m bodyLen wsSpan).Sat (handler env) (Reads cfg) (fun r s' =>
      (r = true → env.Stable → ∃ fixed l sizes rest,
        payloadBytes env cfg s m.payloadAddr m.payloadSize = fixed :: l ∧
        headerSizes 5 l = some (sizes, rest) ∧
        dtGeometryValuesOk m bodyLen wsSpan fixed sizes = true) ∧ Still s s') s := by
  unfold dtGeometryOk
  by_cases hlen : m.payloadSize < 2
  · rw [if_pos hlen]
    exact ⟨nofun, .refl s⟩
  rw [if_neg hlen]
  refine (stagedRead_spec m.payloadAddr 1).bind fun r s1 h1 => ?_
  obtain ⟨hbyte, h1⟩ := h1
  cases r with
  | none => exact ⟨nofun, h1⟩
  | some d =>
    refine (dtHeaderSizes_spec 5 1 s1).bind fun r s2 h2 => ?_
    cases r with
    | none => exact ⟨nofun, h1.trans h2.2⟩
    | some sizes =>
      refine ⟨fun hr hst => ?_, h1.trans h2.2⟩
      obtain ⟨rest, hrest⟩ := h2.1 sizes rfl hst
      rw [payloadBytes_still h1] at hrest
      have hfirst : (payloadBytes env cfg s m.payloadAddr m.payloadSize).drop 0 = _ :: _ :=
        payloadBytes_drop (by omega)
      have hzero : Holds env cfg s (m.payloadAddr + 0) 1 (some d) := hbyte
      refine ⟨_, _, sizes, rest, hfirst, hrest, ?_⟩
      rw [← hzero.byte hst]
      exact hr

/-- On a header that the preflight accepts, the decoder reads the same five sizes from the
same bytes exactly when none of them takes a fifth byte. -/
theorem mota_header_agrees_iff {m : MotaMin} {bodyLen wsSpan : Nat} (hst : env.Stable)
    (h : ((dtGeometryOk cfg m bodyLen wsSpan).run (handler env) s).1 = true) :
    ∃ fixed l sizes rest,
      payloadBytes env cfg s m.payloadAddr m.payloadSize = fixed :: l ∧
      headerSizes 5 l = some (sizes, rest) ∧
      dtGeometryValuesOk m bodyLen wsSpan fixed sizes = true ∧
      (((readHeader (fixed :: l)).1 = 1 + (l.length - rest.length) ∧
        Decoded (readHeader (fixed :: l)).2 sizes) ↔ Short 5 l) := by
  obtain ⟨fixed, l, sizes, rest, hbytes, hsizes, hok⟩ :=
    (dtGeometryOk_spec m bodyLen wsSpan s).result.1 h hst
  have hvalues := hok
  simp only [dtGeometryValuesOk, Bool.and_eq_true, decide_eq_true_eq] at hvalues
  exact ⟨fixed, l, sizes, rest, hbytes, hsizes, hok,
    readHeader_agrees (by tauto) (by tauto) hsizes⟩

/-! ## An overlong size -/

/-- The header of the sample patch, with the last of its sizes in `last`. -/
def samplePatch (last : List Byte) : List Byte :=
  [0x12, 0x80, 0x40, 0x80, 0x40, 0x00, 0x80, 0x01] ++ last

/-- Its container. -/
def sampleManifest (last : List Byte) : MotaMin := appManifest 16 (samplePatch last) [] []

/-- A NOR with the patch behind the header and one block hash. -/
def patchNor (last : List Byte) : Env :=
  { qspiCapacity := 0x1000, qspiByte := fun x => (samplePatch last).getD (x - 209) 0 }

/-- The device while it reads that NOR. -/
def patchDevice : Device :=
  { sampleDevice sampleProfile otaApply stageQspi [] with
    statics := { sampleProfile.boot with qspiSource := true, qspiTotalSize := 0x1000 } }

/-- The size 16 in one byte, and in five. -/
def shortSixteen : List Byte := [0x10]

def longSixteen : List Byte := [0x90, 0x80, 0x80, 0x80, 0x00]

/-- The preflight accepts the overlong size; the decoder stops at its fifth byte. -/
theorem mota_header_overlong :
    ((dtGeometryOk sampleProfile (sampleManifest longSixteen) 8 0x1000).run
      (handler (patchNor longSixteen)) patchDevice).1 = true ∧
    payloadBytes (patchNor longSixteen) sampleProfile patchDevice 209 13 = samplePatch longSixteen ∧
    headerSizes 5 (samplePatch longSixteen).tail = some ([4096, 4096, 0, 64, 16], []) ∧
    (readHeader (samplePatch longSixteen)).2.state = .failed (-detoolsCorruptPatchOverflow) ∧
    ¬ Decoded (readHeader (samplePatch longSixteen)).2 [4096, 4096, 0, 64, 16] := by
  have hfail : (readHeader (samplePatch longSixteen)).2.state =
    .failed (-detoolsCorruptPatchOverflow) := by decide +kernel
  exact ⟨by decide +kernel, by decide +kernel, by decide +kernel, hfail,
    fun h => h.not_failed hfail⟩

/-- On the sample patch both read the same. -/
theorem mota_header_sample : ∃ fixed l sizes rest, samplePatch shortSixteen = fixed :: l ∧
    headerSizes 5 l = some (sizes, rest) ∧ Decoded (readHeader (fixed :: l)).2 sizes := by
  have hst : (patchNor shortSixteen).Stable := fun _ _ => rfl
  have hok : ((dtGeometryOk sampleProfile (sampleManifest shortSixteen) 8 0x1000).run
    (handler (patchNor shortSixteen)) patchDevice).1 = true := by decide +kernel
  obtain ⟨fixed, l, sizes, rest, hbytes, hsizes, -, hiff⟩ := mota_header_agrees_iff hst hok
  have hpayload : payloadBytes (patchNor shortSixteen) sampleProfile patchDevice 209 9 =
    samplePatch shortSixteen := by decide +kernel
  have hl : samplePatch shortSixteen = fixed :: l := hpayload.symm.trans hbytes
  have hshort : Short 5 l := by
    rw [show l = (samplePatch shortSixteen).tail by rw [hl]; rfl]
    decide
  exact ⟨fixed, l, sizes, rest, hl, hsizes, (hiff.mpr hshort).2⟩

end OtaFix.Mota

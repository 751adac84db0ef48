import OtaFix.Lib.Cursor
import OtaFix.SecureDfu.Reference

/-!
# The parser over memory

`secure_dfu_parse_command` as it walks its buffer: a `pb_t` is a pair of pointers, every
byte is a load, and the image is written behind the last check only. Each reader follows
the list parser of the same name, so the command is judged by the reference
and no byte outside of it is read.
-/

namespace OtaFix.SecureDfu

open Lib Lib.Protobuf

/-! ## Readers -/

/-- The loop of `varint`; `n` turns are left. -/
def varintLoopAt (b : Cursor) (v shift : Nat) : Nat → Reader (Nat × Cursor)
  | 0 => failure
  | n + 1 =>
    if b.p < b.fin then do
      let c ← load b.p
      if shift = 28 ∧ 15 < c.toNat then failure
      else
        let v := v ||| ((c.toNat &&& 127) <<< shift)
        if c.toNat &&& 128 = 0 then return (v, ⟨b.p + 1, b.fin⟩)
        else varintLoopAt ⟨b.p + 1, b.fin⟩ v (shift + 7) n
    else failure

def varintAt (b : Cursor) : Reader (Nat × Cursor) := varintLoopAt b 0 0 5

def bytesAt (b : Cursor) : Reader (Cursor × Cursor) := do
  let (n, b) ← varintAt b
  if b.fin - b.p < n then failure else return (⟨b.p, b.p + n⟩, ⟨b.p + n, b.fin⟩)

def byteAt (b : Cursor) (expected : Byte) : Reader Cursor :=
  if b.p < b.fin then do
    let c ← load b.p
    if c = expected then return ⟨b.p + 1, b.fin⟩ else failure
  else failure

def hashAt (b : Cursor) : Reader (List Byte) :=
  if b.fin - b.p ≠ 36 then failure
  else do
    let head ← loadAll ((List.range 4).map (b.p + ·))
    if head ≠ [0x08, 0x03, 0x12, 0x20] then failure
    else loadAll ((List.range 32).map fun i => b.p + (35 - i))

/-! ## The init command -/

def sdReqEntryAt (fwid : Nat) (m : Bool) (req : Cursor) : Reader (Bool × Cursor) := do
  let (value, req) ← varintAt req
  if 0xFFFF < value then failure else return (m || value == fwid, req)

def initFieldAt (cfg : Platform) (f : Fields) (init : Cursor) : Reader (Fields × Cursor) := do
  let (key, init) ← varintAt init
  if key = 0 ∨ 9 < key >>> 3 then failure
  else
    let field := key >>> 3
    let wire := key &&& 7
    if f.seen &&& (1 <<< field) ≠ 0 ∧ field ≠ 3 then failure
    else
      let f := { f with seen := f.seen ||| (1 <<< field) }
      if field = 8 ∧ wire = 2 then do
        let (h, init) ← bytesAt init
        let digest ← hashAt h
        return ({ f with candidate := { f.candidate with sha256 := digest } }, init)
      else if field = 3 ∧ wire = 2 then do
        let (req, init) ← bytesAt init
        if req.p = req.fin then failure
        else
          let m ← whileCursor (sdReqEntryAt cfg.fwid) f.sdMatch req
          return ({ f with sdMatch := m }, init)
      else if wire ≠ 0 then failure
      else do
        let (value, init) ← varintAt init
        let f ← OptionT.mk (pure (scalarField cfg f field value))
        return (f, init)

/-- The image of a command that passes every check. -/
def candidateAt (cfg : Platform) (data len : Nat) : Reader Image :=
  if len = 0 ∨ commandMax < len then failure
  else do
    let packet ← byteAt ⟨data, data + len⟩ 10
    let (command, packet) ← bytesAt packet
    if packet.p ≠ packet.fin then failure
    else
      let command ← byteAt command 8
      let command ← byteAt command 1
      let command ← byteAt command 18
      let (init, command) ← bytesAt command
      if command.p ≠ command.fin then failure
      else
        let f ← whileCursor (initFieldAt cfg) {} init
        if fieldsAccepted cfg f then return f.candidate else failure

/-- The result, and what `image` points to afterwards; a null pointer is zero or `none`. -/
def secureDfuParseCommandAt (cfg : Platform) (data len : Nat) (image : Option Image) :
    Prog LoadRes (Bool × Option Image) := do
  if data = 0 ∨ image = none then return (false, image)
  else
    let r ← (candidateAt cfg data len).run
    match r with
    | none => return (false, image)
    | some candidate => return (true, some candidate)

/-! ## Refinement -/

section Refinement

variable {f : Mem} {lo hi : Nat} {b : Cursor} {l : List Byte}

theorem follows_varintLoopAt {n v shift : Nat} (hshift : shift + 7 * n = 35) (h : At f lo hi b l) :
    Follows f lo hi (PairAt f lo hi) (varintLoopAt b v shift n) (varintLoop v shift l) := by
  induction n generalizing b l v shift with
  | zero =>
    cases l with
    | nil => exact follows_failure
    | cons c l =>
      rw [varintLoop, if_neg (by omega)]
      exact follows_failure
  | succ n ih =>
    rw [varintLoopAt]
    cases l with
    | nil =>
      rw [if_neg (by have := h.end_iff.mpr rfl; omega)]
      exact follows_failure
    | cons c l =>
      obtain ⟨hlt, rfl, hnext⟩ := h.cons
      have := h.lo_le
      have := h.le_hi
      rw [if_pos hlt, varintLoop, if_pos (by omega)]
      refine follows_load (by omega) (by omega) ?_
      refine follows_ite (fun _ => follows_failure) fun _ => ?_
      exact follows_ite (fun _ => follows_pure ⟨rfl, hnext⟩) fun _ => ih (by omega) hnext

theorem follows_varintAt (h : At f lo hi b l) :
    Follows f lo hi (PairAt f lo hi) (varintAt b) (varint l) := follows_varintLoopAt rfl h

/-- Two cursors, each with its bytes. -/
def BothAt (f : Mem) (lo hi : Nat) (x : Cursor × Cursor) (y : List Byte × List Byte) : Prop :=
  At f lo hi x.1 y.1 ∧ At f lo hi x.2 y.2

theorem follows_bytesAt (h : At f lo hi b l) :
    Follows f lo hi (BothAt f lo hi) (bytesAt b) (bytes l) := by
  refine (follows_varintAt h).bind fun x y _ hxy => ?_
  obtain ⟨n, b'⟩ := x
  obtain ⟨n', p⟩ := y
  obtain ⟨hn, hat⟩ := hxy
  simp only at hn hat ⊢
  subst hn
  rw [← hat.length]
  refine follows_ite (fun _ => follows_failure) fun hlen => follows_pure ?_
  exact hat.split (by omega)

theorem follows_byteAt {expected : Byte} (h : At f lo hi b l) :
    Follows f lo hi (At f lo hi) (byteAt b expected) (byte l expected) := by
  unfold byteAt
  cases l with
  | nil =>
    rw [if_neg (by have := h.end_iff.mpr rfl; omega)]
    exact follows_failure
  | cons c l =>
    obtain ⟨hlt, rfl, hnext⟩ := h.cons
    have := h.lo_le
    have := h.le_hi
    rw [if_pos hlt]
    refine follows_load (by omega) (by omega) ?_
    exact follows_ite (fun _ => follows_pure hnext) fun _ => follows_failure

theorem follows_hashAt (h : At f lo hi b l) : Follows f lo hi Eq (hashAt b) (hash l) := by
  have hlen := h.length
  have := h.lo_le
  have := h.le_hi
  unfold hashAt hash
  by_cases h36 : b.fin - b.p = 36
  · rw [if_neg (fun hne => hne h36)]
    have hhead : ((List.range 4).map (b.p + ·)).map f = l.take 4 := by
      rw [← h.view, h36, slice_take (by decide), List.map_map]
      rfl
    have hrest : ((List.range 32).map fun i => b.p + (35 - i)).map f = (l.drop 4).reverse := by
      rw [← h.view, h36, slice_drop (by decide)]
      refine List.ext_getElem (by simp) fun i h1 h2 => ?_
      simp only [List.length_map, List.length_range] at h1
      simp only [slice, List.getElem_map, List.getElem_range, List.getElem_reverse, List.length_map,
        List.length_range]
      congr 1
      omega
    have hhash : (if l.length = 36 ∧ l.take 4 = [0x08, 0x03, 0x12, 0x20] then
          some (l.drop 4).reverse else none) =
        (some (l.take 4)).bind fun head => if head ≠ [0x08, 0x03, 0x12, 0x20] then none
          else some (l.drop 4).reverse := by
      rw [Option.bind_some, ite_not]
      simp only [hlen, h36, true_and]
    rw [hhash, ← hhead, ← hrest]
    refine (follows_loadAll ?_).bind fun head _ _ hh => ?_
    · intro a ha
      obtain ⟨i, hi, rfl⟩ := List.mem_map.mp ha
      rw [List.mem_range] at hi
      omega
    · subst hh
      refine follows_ite (fun _ => follows_failure) fun _ => follows_loadAll ?_
      intro a ha
      obtain ⟨i, hi, rfl⟩ := List.mem_map.mp ha
      rw [List.mem_range] at hi
      omega
  · rw [if_pos h36, if_neg (by omega)]
    exact follows_failure

theorem follows_sdReqEntryAt {fwid : Nat} {m : Bool} (h : At f lo hi b l) :
    Follows f lo hi (PairAt f lo hi) (sdReqEntryAt fwid m b) (sdReqEntry fwid m l) := by
  refine (follows_varintAt h).bind fun x y _ hxy => ?_
  obtain ⟨n, b'⟩ := x
  obtain ⟨n', p⟩ := y
  obtain ⟨hn, hat⟩ := hxy
  simp only at hn hat ⊢
  subst hn
  exact follows_ite (fun _ => follows_failure) fun _ => follows_pure ⟨rfl, hat⟩

theorem follows_sdReqLoop {fwid : Nat} {m : Bool} (h : At f lo hi b l) :
    Follows f lo hi Eq (whileCursor (sdReqEntryAt fwid) m b)
      (whileInput (sdReqEntry fwid) m l) := by
  apply follows_whileCursor _ _ h
  · intro m l m' l' hm
    exact sdReqEntry_length hm
  · intro m b l hat
    exact follows_sdReqEntryAt hat

theorem follows_initFieldAt {cfg : Platform} {g : Fields} (h : At f lo hi b l) :
    Follows f lo hi (PairAt f lo hi) (initFieldAt cfg g b) (initField cfg g l) := by
  refine (follows_varintAt h).bind fun x y _ hxy => ?_
  obtain ⟨key, b1⟩ := x
  obtain ⟨key', l1⟩ := y
  obtain ⟨hkey, hat⟩ := hxy
  simp only at hkey hat ⊢
  subst hkey
  refine follows_ite (fun _ => follows_failure) fun _ => ?_
  refine follows_ite (fun _ => follows_failure) fun _ => ?_
  refine follows_ite (fun _ => ?_) fun _ => ?_
  · refine (follows_bytesAt hat).bind fun x y _ hxy => ?_
    exact (follows_hashAt hxy.1).bind fun d d' _ hd => hd ▸ follows_pure ⟨rfl, hxy.2⟩
  refine follows_ite (fun _ => ?_) fun _ => ?_
  · refine (follows_bytesAt hat).bind fun x y _ hxy => ?_
    refine follows_ite_iff hxy.1.end_iff (fun _ => follows_failure) fun _ => ?_
    refine (follows_sdReqLoop hxy.1).bind fun m m' _ hm => ?_
    exact hm ▸ follows_pure ⟨rfl, hxy.2⟩
  refine follows_ite (fun _ => follows_failure) fun _ => ?_
  refine (follows_varintAt hat).bind fun x y _ hxy => ?_
  obtain ⟨value, b2⟩ := x
  obtain ⟨value', l2⟩ := y
  obtain ⟨hvalue, hat2⟩ := hxy
  simp only at hvalue hat2 ⊢
  subst hvalue
  exact (follows_check _).bind fun g g' _ hg => hg ▸ follows_pure ⟨rfl, hat2⟩

theorem follows_initLoop {cfg : Platform} {g : Fields} (h : At f lo hi b l) :
    Follows f lo hi Eq (whileCursor (initFieldAt cfg) g b) (whileInput (initField cfg) g l) := by
  apply follows_whileCursor _ _ h
  · intro g l g' l' hg
    exact initField_length hg
  · intro g b l hat
    exact follows_initFieldAt hat

/-- The candidate of the bytes at `data`. -/
theorem follows_candidateAt (cfg : Platform) (f : Mem) (data len : Nat) :
    Follows f data (data + len) Eq (candidateAt cfg data len)
      (secureDfuParseCommand cfg (slice f data len)) := by
  unfold candidateAt secureDfuParseCommand
  have hat : At f data (data + len) ⟨data, data + len⟩ (slice f data len) :=
    ⟨Nat.le_refl _, Nat.le_add_right _ _, Nat.le_refl _, by simp only [Nat.add_sub_cancel_left]⟩
  refine follows_ite_iff ?_ (fun _ => follows_failure) fun _ => ?_
  · rw [← List.length_eq_zero_iff, slice_length]
  refine (follows_byteAt hat).bind fun packet p1 _ h1 => ?_
  refine (follows_bytesAt h1).bind fun x y _ h2 => ?_
  refine follows_ite_iff (not_congr h2.2.end_iff) (fun _ => follows_failure) fun _ => ?_
  refine (follows_byteAt h2.1).bind fun c1 d1 _ h3 => ?_
  refine (follows_byteAt h3).bind fun c2 d2 _ h4 => ?_
  refine (follows_byteAt h4).bind fun c3 d3 _ h5 => ?_
  refine (follows_bytesAt h5).bind fun x y _ h6 => ?_
  refine follows_ite_iff (not_congr h6.2.end_iff) (fun _ => follows_failure) fun _ => ?_
  refine (follows_initLoop h6.1).bind fun g g' _ hg => ?_
  subst hg
  exact follows_ite (fun _ => follows_pure rfl) fun _ => follows_failure

end Refinement

/-- The result is the list parser's, on the bytes at `data`, and no other byte is read. -/
theorem secureDfuParseCommandAt_spec (cfg : Platform) (f : Mem) {data : Nat} (len : Nat)
    (image : Image) (hdata : data ≠ 0) :
    (secureDfuParseCommandAt cfg data len (some image)).Sat (memLoads f)
      (fun a _ => data ≤ a ∧ a < data + len)
      (fun r _ => r = match secureDfuParseCommand cfg (slice f data len) with
        | none => (false, some image)
        | some candidate => (true, some candidate)) () := by
  unfold secureDfuParseCommandAt
  rw [if_neg (by simp [hdata])]
  refine Prog.Sat.bind (follows_candidateAt cfg f data len) fun r _ hr => ?_
  generalize secureDfuParseCommand cfg (slice f data len) = q at hr
  cases hr with
  | none => rfl
  | some h =>
    subst h
    rfl

/-- A command the parser accepts: the reference's reading of it, in the forms it insists on. -/
def Accepts (cfg : Platform) (data : List Byte) : Prop :=
  data.length ≤ commandMax ∧ ∃ items command size digest, Packet Varint32 items data command ∧
    [10] <+: data ∧ [8, 1, 18] <+: command ∧ .sdReq [] ∉ items ∧ Valid cfg items size digest

/-- The parser against the reference, on every string: it reads nothing but the string, accepts
what the reference accepts, writes the image announced there, and none if it refuses. -/
theorem secure_dfu_parse_command_reference {cfg : Platform} {f : Mem} {data len : Nat}
    {image : Image} (hdata : data ≠ 0) :
    (secureDfuParseCommandAt cfg data len (some image)).Sat (memLoads f)
      (fun a _ => data ≤ a ∧ a < data + len)
      (fun r _ => (r.1 = true ↔ Accepts cfg (slice f data len)) ∧
        (r.1 = false → r.2 = some image) ∧
        ∀ items command size digest, Packet Varint32 items (slice f data len) command →
          Valid cfg items size digest → r.1 = true → r.2 = some ⟨size, digest.reverse⟩) () := by
  refine (secureDfuParseCommandAt_spec cfg f len image hdata).post fun r _ hr => ?_
  cases hq : secureDfuParseCommand cfg (slice f data len) with
  | none =>
    rw [hq] at hr
    subst hr
    refine ⟨⟨nofun, ?_⟩, fun _ => rfl, fun _ _ _ _ _ _ h => nomatch h⟩
    rintro ⟨hlen, items, command, size, digest, hpacket, htag, htags, hempty, hvalid⟩
    have hsome : secureDfuParseCommand cfg (slice f data len) = some ⟨size, digest.reverse⟩ :=
      secureDfuParseCommand_iff.mpr
        ⟨hlen, items, command, digest, hpacket, htag, htags, hempty, hvalid, rfl⟩
    rw [hq] at hsome
    cases hsome
  | some candidate =>
    rw [hq] at hr
    subst hr
    obtain ⟨hlen, items, command, digest, hpacket, htag, htags, hempty, hvalid, hsha⟩ :=
      secureDfuParseCommand_iff.mp hq
    refine ⟨⟨fun _ => ⟨hlen, items, command, _, digest, hpacket, htag, htags, hempty, hvalid⟩,
      fun _ => rfl⟩, nofun, ?_⟩
    intro items' command' size digest' hpacket' hvalid' _
    obtain ⟨rfl, rfl⟩ := hpacket.unique hpacket'
    obtain ⟨rfl, rfl⟩ := hvalid.unique hvalid'
    rw [← hsha]

/-! ## Samples -/

/-- The bytes of a string, at address 1. -/
def memOf (l : List Byte) : Mem := fun a => l.getD (a - 1) 0

theorem slice_memOf (l : List Byte) : slice (memOf l) 1 l.length = l := by
  refine List.ext_getElem (by simp) fun i h1 h2 => ?_
  simp [slice, memOf, h2]

def samplePlatform : Platform := ⟨4096, 1, 52, by decide⟩

def sampleDigest : List Byte := 1 :: List.replicate 31 0

/-- An init command for 8 bytes of image, with the given SoftDevice fields. -/
def sampleItems (reqs : List Item) : List Item :=
  .scalar 2 52 :: (reqs ++ [.scalar 7 8, .hash sampleDigest])

def sampleInit (reqs : List Byte) : List Byte :=
  [0x10, 52] ++ (reqs ++ ([0x38, 8] ++ [0x42, 36, 0x08, 0x03, 0x12, 0x20] ++ sampleDigest))

theorem varint32_of {l : List Byte} {v : Nat} (h : varint l = some (v, [])) : Varint32 v l := by
  obtain ⟨l', hl', rfl⟩ := varint_iff.mp h
  rwa [List.append_nil]

theorem varint32_byte {c : Byte} (h : c.toNat < 128) : Varint32 c.toNat [c] :=
  ⟨.last h, by simp, by omega⟩

section OneByte

variable {V : Nat → List Byte → Prop} (hV : ∀ c : Byte, c.toNat < 128 → V c.toNat [c])
include hV

theorem sampleInit_concat {reqs : List Item} {b : List Byte} (h : Concat (Encodes V) reqs b) :
    Concat (Encodes V) (sampleItems reqs) (sampleInit b) := by
  have hhw : Encodes V (.scalar 2 52) ([0x10] ++ [52]) :=
    ⟨_, .varint (hV 0x10 (by decide)) (hV 52 (by decide)), .scalar (by decide)⟩
  have hsize : Encodes V (.scalar 7 8) ([0x38] ++ [8]) :=
    ⟨_, .varint (hV 0x38 (by decide)) (hV 8 (by decide)), .scalar (by decide)⟩
  have hhash : Encodes V (.hash sampleDigest)
      ([0x42] ++ ([36] ++ ([0x08, 0x03, 0x12, 0x20] ++ sampleDigest))) :=
    ⟨_, .bytes (hV 0x42 (by decide)) (hV 36 (by decide)), .hash rfl⟩
  refine .cons hhw ?_
  have htail : Concat (Encodes V) [.scalar 7 8, .hash sampleDigest] _ :=
    .cons hsize (.cons hhash .nil)
  clear hhw hsize hhash
  induction h with
  | nil => simpa using htail
  | cons hx _ ih =>
    rw [List.append_assoc]
    exact .cons hx ih

end OneByte

theorem sampleItems_valid {reqs : List Item} (hfield : ∀ x ∈ reqs, x.field = 3)
    (hle : ∀ v ∈ reqs.flatMap Item.sdReqs, v ≤ 0xFFFF) (hfwid : 1 ∈ reqs.flatMap Item.sdReqs) :
    Valid samplePlatform (sampleItems reqs) 8 sampleDigest := by
  have hreqs : (sampleItems reqs).flatMap Item.sdReqs = reqs.flatMap Item.sdReqs := by
    simp [sampleItems, Item.sdReqs]
  refine ⟨fun k hk => ?_, List.mem_cons_self .., hreqs ▸ hle, hreqs ▸ hfwid, fun k hk v hv => ?_,
    ?_, ?_, by decide, by decide, by decide⟩
  · have hnone : (reqs.map Item.field).count k = 0 := by
      refine List.count_eq_zero.mpr fun hmem => hk ?_
      obtain ⟨x, hx, rfl⟩ := List.mem_map.mp hmem
      exact hfield x hx
    simp only [sampleItems, List.map_cons, List.map_append, List.count_cons, List.count_append,
      Item.field, List.map_nil, List.count_nil, hnone, beq_iff_eq]
    split_ifs <;> omega
  · simp only [sampleItems, List.mem_cons, List.mem_append, List.not_mem_nil, or_false,
      Item.scalar.injEq, reduceCtorEq] at hv
    rcases hv with ⟨rfl, -⟩ | hv | ⟨rfl, -⟩
    · exact absurd hk (by decide)
    · obtain rfl : k = 3 := hfield _ hv
      exact absurd hk (by decide)
    · exact absurd hk (by decide)
  · simp [sampleItems]
  · simp [sampleItems]

def sampleCommand (l init : List Byte) : List Byte := [8] ++ ([1] ++ ([18] ++ (l ++ init)))

theorem sampleCommand_packet {V : Nat → List Byte → Prop}
    (hV : ∀ c : Byte, c.toNat < 128 → V c.toNat [c]) {reqs : List Item} {b tag l l' : List Byte}
    (h : Concat (Encodes V) reqs b) (htag : V 10 tag) (hl' : V (sampleInit b).length l')
    (hl : V (sampleCommand l' (sampleInit b)).length l) :
    Packet V (sampleItems reqs) (tag ++ (l ++ sampleCommand l' (sampleInit b)))
      (sampleCommand l' (sampleInit b)) :=
  packet_iff.mpr ⟨⟨tag, l, htag, hl, rfl⟩, [8], [1], [18], l', sampleInit b, hV 8 (by decide),
    hV 1 (by decide), hV 18 (by decide), hl', rfl, sampleInit_concat hV h⟩

/-- The reference alone. -/
def Reference (cfg : Platform) (data : List Byte) : Prop :=
  ∃ items command size digest, Packet Varint32 items data command ∧ Valid cfg items size digest

/-- The parser's answer on a string. -/
def answerOf (cfg : Platform) (data : List Byte) : Bool :=
  ((secureDfuParseCommandAt cfg 1 data.length (some {})).run (memLoads (memOf data)) ()).1.1

theorem answerOf_eq (cfg : Platform) (data : List Byte) :
    answerOf cfg data = (secureDfuParseCommand cfg data).isSome := by
  have hspec := (secureDfuParseCommandAt_spec cfg (memOf data) data.length {} one_ne_zero).result
  unfold answerOf
  rw [hspec, slice_memOf]
  cases secureDfuParseCommand cfg data with
  | none => rfl
  | some candidate => rfl

theorem packed_ones (n : Nat) : Packed Varint32 (List.replicate n 1) (List.replicate n 1) := by
  induction n with
  | zero => exact .nil
  | succ n ih => exact .cons (varint32_of (by decide) : Varint32 1 [1]) ih

/-- An init command for SoftDevice 1. -/
def shortCommand : List Byte := [10] ++ ([48] ++ sampleCommand [44] (sampleInit [0x18, 1]))

theorem encodes_sdReq_one : Encodes Varint32 (.scalar 3 1) [0x18, 1] :=
  ⟨_, .varint (varint32_of (by decide) : Varint32 (3 * 8) [0x18]) (varint32_of (by decide)),
    .scalar (by decide)⟩

/-- It is accepted, and its digest delivered in reverse. -/
theorem secure_dfu_parse_command_sample :
    ((secureDfuParseCommandAt samplePlatform 1 shortCommand.length (some {})).run
      (memLoads (memOf shortCommand)) ()).1 = (true, some ⟨8, List.replicate 31 0 ++ [1]⟩) := by
  have hpacket := sampleCommand_packet (fun _ => varint32_byte) (concat_singleton encodes_sdReq_one)
    (varint32_of (show varint [10] = _ by decide)) (varint32_of (show varint [44] = _ by decide +kernel))
    (varint32_of (show varint [48] = _ by decide +kernel))
  have hvalid : Valid samplePlatform (sampleItems [.scalar 3 1]) 8 sampleDigest :=
    sampleItems_valid (by decide) (by decide) (by decide)
  have hspec : (secureDfuParseCommandAt samplePlatform 1 shortCommand.length (some {})).Sat
    (memLoads (memOf shortCommand)) _ _ () := secure_dfu_parse_command_reference one_ne_zero
  obtain ⟨haccepts, -, himage⟩ := hspec.result
  rw [slice_memOf] at haccepts himage
  have hyes := haccepts.mpr ⟨by decide, _, _, _, _, hpacket, ⟨_, rfl⟩, ⟨_, rfl⟩, by decide, hvalid⟩
  exact Prod.ext hyes (himage _ _ _ _ hpacket hvalid hyes)

/-- 273 bytes, with a list of 220 SoftDevices. -/
def longCommand : List Byte :=
  [10] ++ ([0x8E, 0x02] ++ sampleCommand [0x89, 0x02]
    (sampleInit ([0x1A] ++ ([0xDC, 0x01] ++ List.replicate 220 1))))

/-- The tag of the command in two bytes. -/
def overlongTag : List Byte := [0x8A, 0x00] ++ ([48] ++ sampleCommand [44] (sampleInit [0x18, 1]))

/-- A packed list without entries, then an entry. -/
def emptyList : List Byte :=
  [10] ++ ([50] ++ sampleCommand [46] (sampleInit ([0x1A, 0] ++ [0x18, 1])))

/-- Three strings that the reference accepts and the parser refuses: one is too long, in one a
tag takes two bytes, and in one a packed list is empty. -/
theorem secure_dfu_parse_command_stricter :
    (Reference samplePlatform longCommand ∧ answerOf samplePlatform longCommand = false) ∧
    (Reference samplePlatform overlongTag ∧ answerOf samplePlatform overlongTag = false) ∧
    (Reference samplePlatform emptyList ∧ answerOf samplePlatform emptyList = false) := by
  have hnone : Encodes Varint32 (.sdReq []) [0x1A, 0] :=
    ⟨_, .bytes (varint32_of (by decide) : Varint32 (3 * 8 + 2) [0x1A])
      (varint32_of (by decide) : Varint32 ([] : List Byte).length [0]), .sdReq .nil⟩
  have hlong : Encodes Varint32 (.sdReq (List.replicate 220 1))
      ([0x1A] ++ ([0xDC, 0x01] ++ List.replicate 220 1)) :=
    ⟨_, .bytes (varint32_of (by decide))
      (varint32_of (by decide +kernel) : Varint32 (List.replicate 220 (1 : Byte)).length [0xDC, 1]),
      .sdReq (packed_ones 220)⟩
  simp only [answerOf_eq]
  refine ⟨⟨⟨_, _, _, _, sampleCommand_packet (fun _ => varint32_byte) (concat_singleton hlong)
      (varint32_of ?_) (varint32_of ?_) (varint32_of ?_),
      sampleItems_valid ?_ ?_ ?_⟩, ?_⟩,
    ⟨⟨_, _, _, _, sampleCommand_packet (fun _ => varint32_byte) (concat_singleton encodes_sdReq_one)
      (varint32_of ?_) (varint32_of ?_) (varint32_of ?_),
      sampleItems_valid ?_ ?_ ?_⟩, ?_⟩,
    ⟨⟨_, _, _, _, sampleCommand_packet (fun _ => varint32_byte)
      (.cons hnone (concat_singleton encodes_sdReq_one)) (varint32_of ?_) (varint32_of ?_)
      (varint32_of ?_),
      sampleItems_valid ?_ ?_ ?_⟩, ?_⟩⟩
  all_goals decide +kernel

end OtaFix.SecureDfu

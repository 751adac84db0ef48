import OtaFix.Word
import OtaFix.Lib.Reader

/-!
# The Secure DFU init packet

The command object is a protobuf `Packet{Command{INIT, InitCommand}}`, read by
a strict parser: one-byte tags are compared directly, repeated fields are
refused (the SoftDevice list apart), and the image metadata is delivered only
when the whole packet is accepted. A reader (`pb_t`) is the list of bytes
between its cursor and its end, so a read returns the value and what is left.
-/

namespace OtaFix.SecureDfu

def commandMax : Nat := 256

def objectMax : Nat := 4096

/-- `secure_dfu_image_t`: the announced size and the SHA-256 of the image. -/
structure Image where
  size : Nat := 0
  sha256 : List Byte := List.replicate 32 0
  deriving DecidableEq, Repr

/-- What the platform fixes: the room for an image, the SoftDevice's firmware
id and the build's hardware version. -/
structure Platform where
  maxImage : Nat
  fwid : Nat
  hwVersion : Nat
  maxImage_lt : maxImage < 2 ^ 32

/-! ## Readers -/

/-- The loop of `varint`, `shift` bits into the value. -/
def varintLoop (v shift : Nat) : List Byte → Option (Nat × List Byte)
  | [] => none
  | c :: p =>
    if shift < 35 then
      -- the fifth byte carries the top four bits only
      if shift = 28 ∧ 15 < c.toNat then none
      else
        let v' := v ||| ((c.toNat &&& 127) <<< shift)
        if c.toNat &&& 128 = 0 then some (v', p) else varintLoop v' (shift + 7) p
    else none

def varint (b : List Byte) : Option (Nat × List Byte) := varintLoop 0 0 b

/-- A length-prefixed child reader, then the rest. -/
def bytes (b : List Byte) : Option (List Byte × List Byte) := do
  let (n, p) ← varint b
  if p.length < n then none else some (p.take n, p.drop n)

def byte (b : List Byte) (expected : Byte) : Option (List Byte) :=
  match b with
  | [] => none
  | c :: p => if c = expected then some p else none

/-- `Hash{SHA256, bytes[32]}`; the wire order is reversed. -/
def hash (b : List Byte) : Option (List Byte) :=
  if b.length = 36 ∧ b.take 4 = [0x08, 0x03, 0x12, 0x20] then some (b.drop 4).reverse else none

/-! ## The init command -/

/-- The locals of the field loop. -/
structure Fields where
  candidate : Image := {}
  seen : Nat := 0
  sdMatch : Bool := false
  deriving DecidableEq, Repr

/-- An entry of the packed SoftDevice list: 16 bits, and one should match. -/
def sdReqEntry (fwid : Nat) (m : Bool) (req : List Byte) : Option (Bool × List Byte) := do
  let (value, req) ← varint req
  if 0xFFFF < value then none else some (m || value == fwid, req)

/-- The `switch` on a field with a plain varint value. -/
def scalarField (cfg : Platform) (f : Fields) (field value : Nat) : Option Fields :=
  match field with
  | 1 => some f
  | 2 => if value ≠ cfg.hwVersion then none else some f
  | 3 => if 0xFFFF < value then none else some { f with sdMatch := f.sdMatch || value == cfg.fwid }
  | 4 | 5 | 6 | 9 => if value ≠ 0 then none else some f
  | 7 => some { f with candidate := { f.candidate with size := value } }
  | _ => none

/-- One turn of the field loop. -/
def initField (cfg : Platform) (f : Fields) (init : List Byte) : Option (Fields × List Byte) := do
  let (key, init) ← varint init
  if key = 0 ∨ 9 < key >>> 3 then none
  else
    let field := key >>> 3
    let wire := key &&& 7
    if f.seen &&& (1 <<< field) ≠ 0 ∧ field ≠ 3 then none
    else
      let f := { f with seen := f.seen ||| (1 <<< field) }
      if field = 8 ∧ wire = 2 then do
        let (h, init) ← bytes init
        let digest ← hash h
        some ({ f with candidate := { f.candidate with sha256 := digest } }, init)
      else if field = 3 ∧ wire = 2 then do
        let (req, init) ← bytes init
        if req = [] then none
        else
          let m ← Lib.whileInput (sdReqEntry cfg.fwid) f.sdMatch req
          some ({ f with sdMatch := m }, init)
      else if wire ≠ 0 then none
      else do
        let (value, init) ← varint init
        let f ← scalarField cfg f field value
        some (f, init)

/-- Hardware version, SoftDevice list, size and hash must all have been seen. -/
def fieldsAccepted (cfg : Platform) (f : Fields) : Bool :=
  (f.seen &&& 0x18C) = 0x18C && f.sdMatch && 8 ≤ f.candidate.size &&
    f.candidate.size ≤ cfg.maxImage && f.candidate.size &&& 3 = 0

def secureDfuParseCommand (cfg : Platform) (data : List Byte) : Option Image := do
  if data = [] ∨ commandMax < data.length then none
  else
    let packet ← byte data 10
    let (command, packet) ← bytes packet
    if packet ≠ [] then none
    else
      let command ← byte command 8
      let command ← byte command 1
      let command ← byte command 18
      let (init, command) ← bytes command
      if command ≠ [] then none
      else
        let f ← Lib.whileInput (initField cfg) {} init
        if fieldsAccepted cfg f then some f.candidate else none

/-! ## Every turn consumes input -/

theorem varintLoop_length {v shift : Nat} {b p : List Byte} {n : Nat}
    (h : varintLoop v shift b = some (n, p)) : p.length < b.length := by
  induction b generalizing v shift with
  | nil => simp [varintLoop] at h
  | cons c b ih =>
    simp only [varintLoop] at h
    split at h
    · split at h
      · cases h
      · split at h
        · simp only [Option.some.injEq, Prod.mk.injEq] at h
          obtain ⟨-, rfl⟩ := h
          simp
        · have := ih h
          simp only [List.length_cons]
          omega
    · cases h

theorem varint_length {b p : List Byte} {n : Nat} (h : varint b = some (n, p)) :
    p.length < b.length := varintLoop_length h

theorem bytes_length {b c p : List Byte} (h : bytes b = some (c, p)) : p.length < b.length := by
  simp only [bytes, Option.bind_eq_bind, Option.bind_eq_some_iff, Prod.exists] at h
  obtain ⟨n, q, hv, h⟩ := h
  split at h
  · cases h
  · simp only [Option.some.injEq, Prod.mk.injEq] at h
    obtain ⟨-, rfl⟩ := h
    have := varint_length hv
    simp only [List.length_drop]
    omega

/-- Each turn of the field loop consumes at least its tag. -/
theorem initField_length {cfg : Platform} {f f' : Fields} {b p : List Byte}
    (h : initField cfg f b = some (f', p)) : p.length < b.length := by
  simp only [initField, Option.bind_eq_bind, Option.bind_eq_some_iff, Prod.exists] at h
  obtain ⟨key, q, hv, h⟩ := h
  have hq := varint_length hv
  split at h
  · cases h
  split at h
  · cases h
  split at h
  · simp only [Option.bind_eq_some_iff, Prod.exists, Option.some.injEq, Prod.mk.injEq] at h
    obtain ⟨c, r, hb, d, -, -, rfl⟩ := h
    have := bytes_length hb
    omega
  split at h
  · simp only [Option.bind_eq_some_iff, Prod.exists] at h
    obtain ⟨c, r, hb, h⟩ := h
    have := bytes_length hb
    split at h
    · cases h
    · simp only [Option.bind_eq_some_iff, Option.some.injEq, Prod.mk.injEq] at h
      obtain ⟨m, -, -, rfl⟩ := h
      omega
  split at h
  · cases h
  · simp only [Option.bind_eq_some_iff, Prod.exists, Option.some.injEq, Prod.mk.injEq] at h
    obtain ⟨value, r, hb, f1, -, -, rfl⟩ := h
    have := varint_length hb
    omega

theorem sdReqEntry_length {fwid : Nat} {m m' : Bool} {b p : List Byte}
    (h : sdReqEntry fwid m b = some (m', p)) : p.length < b.length := by
  simp only [sdReqEntry, Option.bind_eq_bind, Option.bind_eq_some_iff, Prod.exists] at h
  obtain ⟨n, q, hv, h⟩ := h
  split at h
  · cases h
  · simp only [Option.some.injEq, Prod.mk.injEq] at h
    obtain ⟨-, rfl⟩ := h
    exact varint_length hv

/-- `while (init.p != init.end)`: run a turn and go on with what is left. -/
theorem initLoop_while (cfg : Platform) (f : Fields) (init : List Byte) :
    Lib.whileInput (initField cfg) f init =
      if init.length = 0 then some f
      else (initField cfg f init).bind fun r => Lib.whileInput (initField cfg) r.1 r.2 :=
  Lib.whileInput_eq (fun _ _ _ _ => initField_length) f init

/-- `while (req.p != req.end)`, over the packed SoftDevice list. -/
theorem sdReqLoop_while (fwid : Nat) (m : Bool) (req : List Byte) :
    Lib.whileInput (sdReqEntry fwid) m req =
      if req.length = 0 then some m
      else (sdReqEntry fwid m req).bind fun r => Lib.whileInput (sdReqEntry fwid) r.1 r.2 :=
  Lib.whileInput_eq (fun _ _ _ _ => sdReqEntry_length) m req

/-! ## What is accepted -/

theorem secureDfuParseCommand_size {cfg : Platform} {data : List Byte} {image : Image}
    (h : secureDfuParseCommand cfg data = some image) :
    8 ≤ image.size ∧ image.size ≤ cfg.maxImage := by
  simp only [secureDfuParseCommand, Option.bind_eq_bind] at h
  split at h
  · cases h
  simp only [Option.bind_eq_some_iff, Prod.exists] at h
  obtain ⟨packet, -, command, rest, -, h⟩ := h
  split at h
  · cases h
  simp only [Option.bind_eq_some_iff, Prod.exists] at h
  obtain ⟨c1, -, c2, -, c3, -, init, rest', -, h⟩ := h
  split at h
  · cases h
  simp only [Option.bind_eq_some_iff] at h
  obtain ⟨f, -, h⟩ := h
  split at h
  · rename_i hacc
    cases h
    simp only [fieldsAccepted, Bool.and_eq_true, decide_eq_true_eq] at hacc
    exact ⟨hacc.1.1.2, hacc.1.2⟩
  · cases h

end OtaFix.SecureDfu

import OtaFix.Crc
import OtaFix.SecureDfu.Parse

/-!
# The Secure DFU session

`secure_dfu_t` and its two entry points, `secureDfuControl` and
`secureDfuPacket`. Both return the next session, the response (no bytes: no
response) and the calls they made to the platform hooks, in order. A hook's
result is an input: `Hooks` holds what each of the three would answer in this
call, and each is invoked at most once in a call.
-/

namespace OtaFix.SecureDfu

inductive ObjectType where
  | command
  | data
  deriving DecidableEq, Repr

def ObjectType.ofByte (b : Byte) : Option ObjectType :=
  if b = 1 then some .command else if b = 2 then some .data else none

inductive Status where
  | ok
  | notSupported
  | badParameter
  | badObject
  | badType
  | notPermitted
  | failed
  deriving DecidableEq, Repr

def Status.code : Status → Byte
  | ok => 1
  | notSupported => 2
  | badParameter => 3
  | badObject => 5
  | badType => 7
  | notPermitted => 8
  | failed => 10

/-- `secure_dfu_t`. `selected` is `none` before the first object is chosen. -/
structure Session where
  command : List Byte := List.replicate commandMax 0
  data : List Byte := List.replicate objectMax 0
  image : Image := {}
  commandSize : Nat := 0
  commandOffset : Nat := 0
  commandCrc : BitVec 32 := 0
  committed : Nat := 0
  committedCrc : BitVec 32 := 0
  objectSize : Nat := 0
  objectOffset : Nat := 0
  dataCrc : BitVec 32 := 0
  prn : Nat := 0
  prnCount : Nat := 0
  selected : Option ObjectType := none
  initialized : Bool := false
  executed : Bool := false
  completed : Bool := false
  failed : Bool := false
  deriving DecidableEq, Repr

/-- `memset(s, 0, sizeof(*s))`. -/
def secureDfuInit : Session := {}

/-- The results of the platform hooks, should this call invoke them. -/
structure Hooks where
  begin : Bool
  write : Bool
  finish : Bool
  deriving DecidableEq, Repr

/-- What a call does outside the session. `reset` marks `secure_dfu_init`. -/
inductive Call where
  | reset
  | begin (image : Image) (ok : Bool)
  | write (data : List Byte) (ok : Bool)
  | finish (ok : Bool)
  | activity
  deriving DecidableEq, Repr

/-! ## Control point -/

/-- Offset and CRC of the selected object, as reported to the peer. -/
def checksum (s : Session) : List Byte :=
  if s.selected = some .command then put32 s.commandOffset ++ put32 s.commandCrc.toNat
  else put32 (add32 s.committed s.objectOffset) ++ put32 s.dataCrc.toNat

def create (s : Session) (type : Byte) (n : Nat) : Session × Status × List Call :=
  if s.failed || s.completed then (s, .notPermitted, [])
  else
    match ObjectType.ofByte type with
    | some .command =>
      if n = 0 ∨ commandMax < n then (s, .badParameter, [])
      else
        ({ secureDfuInit with prn := s.prn, commandSize := n, selected := some .command },
          .ok, [.reset])
    | some .data =>
      if !s.initialized then (s, .notPermitted, [])
      else
        let left := sub32 s.image.size s.committed
        if n = 0 ∨ n ≠ (if left < objectMax then left else objectMax) then (s, .badParameter, [])
        else
          -- only the unexecuted RAM object is rolled back, never committed flash
          ({ s with
              objectSize := n, objectOffset := 0, dataCrc := s.committedCrc, executed := false,
              selected := some .data, prnCount := 0 }, .ok, [])
    | none => (s, .badType, [])

/-- `execute` on the command object. -/
def executeCommand (cfg : Platform) (h : Hooks) (s : Session) : Session × Status × List Call :=
  if s.initialized then (s, .ok, [])
  else if s.commandSize = 0 ∨ s.commandOffset ≠ s.commandSize then (s, .badObject, [])
  else
    match secureDfuParseCommand cfg (s.command.take s.commandSize) with
    | none => (s, .badObject, [])
    | some image =>
      if h.begin then
        ({ s with image := image, initialized := true }, .ok, [.begin image true])
      else ({ s with image := image, failed := true }, .failed, [.begin image false])

/-- The bookkeeping of a durable object. -/
def commitObject (s : Session) : Session :=
  { s with
    committed := add32 s.committed s.objectSize, committedCrc := s.dataCrc,
    objectOffset := 0, objectSize := 0, executed := true }

/-- `execute` on a data object. -/
def executeData (h : Hooks) (s : Session) : Session × Status × List Call :=
  if !s.initialized then (s, .notPermitted, [])
  else if s.executed then (s, .ok, [])
  else if s.objectSize = 0 ∨ s.objectOffset ≠ s.objectSize then (s, .notPermitted, [])
  else
    let object := s.data.take s.objectSize
    if !h.write then ({ s with failed := true }, .failed, [.write object false])
    else
      let s' := commitObject s
      if s'.committed = s'.image.size then
        if h.finish then
          ({ s' with completed := true }, .ok, [.write object true, .finish true])
        else ({ s' with failed := true }, .badObject, [.write object true, .finish false])
      else (s', .ok, [.write object true])

def execute (cfg : Platform) (h : Hooks) (s : Session) : Session × Status × List Call :=
  if s.failed then (s, .failed, [])
  else
    match s.selected with
    | some .command => executeCommand cfg h s
    | some .data => executeData h s
    | none => (s, .notPermitted, [])

/-- The tail of `secure_dfu_control`: header, extra bytes, activity on success. -/
def respond (op : Byte) (extra : List Byte) (r : Session × Status × List Call) :
    Session × List Byte × List Call :=
  (r.1, [0x60, op, r.2.1.code] ++ extra, if r.2.1 = .ok then r.2.2 ++ [.activity] else r.2.2)

def secureDfuControl (cfg : Platform) (h : Hooks) (s : Session) (inp : List Byte) :
    Session × List Byte × List Call :=
  match inp with
  | [] => (s, [], [])
  | op :: args =>
    if op = 1 then
      match args with
      | [type, b0, b1, b2, b3] => respond op [] (create s type (get32 b0 b1 b2 b3))
      | _ => respond op [] (s, .badParameter, [])
    else if op = 2 then
      match args with
      | [b0, b1] =>
        respond op [] ({ s with prn := b0.toNat + b1.toNat * 2 ^ 8, prnCount := 0 }, .ok, [])
      | _ => respond op [] (s, .badParameter, [])
    else if op = 3 then
      match args with
      | [] =>
        if s.failed then respond op [] (s, .failed, [])
        else if s.selected ≠ none then respond op (checksum s) (s, .ok, [])
        else respond op [] (s, .notPermitted, [])
      | _ => respond op [] (s, .badParameter, [])
    else if op = 6 then
      match args with
      | [type] =>
        match ObjectType.ofByte type with
        | some t =>
          let s := { s with selected := some t }
          respond op (put32 (if t = .command then commandMax else objectMax) ++ checksum s)
            (s, .ok, [])
        | none => respond op [] (s, .badType, [])
      | _ => respond op [] (s, .badParameter, [])
    else if op = 4 then
      match args with
      | [] => respond op [] (execute cfg h s)
      | _ => respond op [] (s, .badParameter, [])
    else respond op [] (s, .notSupported, [])

/-! ## Packets -/

/-- The receipt a packet may owe: a checksum after every `prn` packets. -/
def packetReceipt (s : Session) : Session × List Byte × List Call :=
  if s.prn = 0 then (s, [], [.activity])
  else
    let n := (s.prnCount + 1) % 2 ^ 16
    if s.prn ≤ n then
      ({ s with prnCount := 0 }, [0x60, 3, Status.ok.code] ++ checksum s, [.activity])
    else ({ s with prnCount := n }, [], [.activity])

/-- The guard of `secure_dfu_packet`, for an object of `size` filled to `offset`. -/
def packetRefused (s : Session) (offset size : Nat) (inp : List Byte) : Bool :=
  s.failed || inp.isEmpty || s.selected.isNone || size < offset || size - offset < inp.length ||
    (if s.selected = some .command then s.initialized else !s.initialized || s.executed)

/-- Append a packet to the command object. -/
def fillCommand (s : Session) (inp : List Byte) : Session :=
  { s with
    command := memcpy s.command s.commandOffset inp
    commandOffset := add32 s.commandOffset inp.length
    commandCrc := otafixCrc32Update s.commandCrc inp }

/-- Append a packet to the data object. -/
def fillObject (s : Session) (inp : List Byte) : Session :=
  { s with
    data := memcpy s.data s.objectOffset inp
    objectOffset := add32 s.objectOffset inp.length
    dataCrc := otafixCrc32Update s.dataCrc inp }

def secureDfuPacket (s : Session) (inp : List Byte) : Session × List Byte × List Call :=
  let command := s.selected = some .command
  let offset := if command then s.commandOffset else s.objectOffset
  let size := if command then s.commandSize else s.objectSize
  if packetRefused s offset size inp then (s, [0x60, 8, Status.notPermitted.code], [])
  else if command then packetReceipt (fillCommand s inp)
  else packetReceipt (fillObject s inp)

end OtaFix.SecureDfu

import Mathlib.Tactic.Tauto
import OtaFix.Image
import OtaFix.SecureDfu.Ble
import OtaFix.SecureDfu.Pointer

/-!
# Resuming a transfer

A refused request leaves the session as it was. So a sender that lost the link, or was
refused, can ask for the offset and go on from there: at an object boundary it
executes and creates the next object, inside an object it sends the rest. However
often it does, and wherever it cuts its packets, the objects that reach
`secure_dfu_write` are those of the image, one after the other.
-/

namespace OtaFix.SecureDfu

open Lib

/-! ## Refusals -/

/-- A response that carries an error. -/
def errorReply : List Byte → Bool
  | [_, _, status] => status != 1
  | _ => false

/-- A failure of the platform, which is latched. -/
def Call.fails : Call → Bool
  | .begin _ ok | .write _ ok | .finish ok => !ok
  | _ => false

variable {cfg : Platform} {h : Hooks} {s : Session}

theorem errorReply_response {op : Byte} {status : Status} {extra : List Byte}
    (herr : errorReply ([0x60, op, status.code] ++ extra) = true) : status ≠ .ok := by
  rintro rfl
  cases extra with
  | nil => cases herr
  | cons b extra => cases herr

/-- The changes of a call are those of a success, or of a failed hook. -/
def Harmless (s : Session) (r : Session × Status × List Call) : Prop :=
  r.2.1 ≠ .ok → (∀ c ∈ r.2.2, c.fails = false) → r.1 = s ∧ r.2.2 = []

theorem harmless_same (status : Status) : Harmless s (s, status, []) := fun _ _ => ⟨rfl, rfl⟩

theorem harmless_ok {s' : Session} {calls : List Call} : Harmless s (s', .ok, calls) :=
  fun h => absurd rfl h

theorem harmless_failed {s' : Session} {status : Status} {calls : List Call} {c : Call}
    (hc : c ∈ calls) (hfails : c.fails = true) : Harmless s (s', status, calls) := by
  intro _ hcalls
  rw [hcalls c hc] at hfails
  cases hfails

theorem create_harmless (type : Byte) (n : Nat) : Harmless s (create s type n) := by
  unfold create
  split
  · exact harmless_same _
  split
  · split
    · exact harmless_same _
    · exact harmless_ok
  · split
    · exact harmless_same _
    simp only
    generalize (if sub32 s.image.size s.committed < objectMax then sub32 s.image.size s.committed
      else objectMax) = full
    split
    · exact harmless_same _
    · exact harmless_ok
  · exact harmless_same _

theorem executeCommand_harmless : Harmless s (executeCommand cfg h s) := by
  unfold executeCommand
  split
  · exact harmless_ok
  split
  · exact harmless_same _
  split
  · exact harmless_same _
  split
  · exact harmless_ok
  · exact harmless_failed (List.mem_singleton.mpr rfl) rfl

theorem executeData_harmless : Harmless s (executeData h s) := by
  unfold executeData
  split
  · exact harmless_same _
  split
  · exact harmless_ok
  split
  · exact harmless_same _
  simp only
  split
  · exact harmless_failed (List.mem_singleton.mpr rfl) rfl
  split
  · split
    · exact harmless_ok
    · exact harmless_failed (List.mem_cons_of_mem _ (List.mem_singleton.mpr rfl)) rfl
  · exact harmless_ok

theorem execute_harmless : Harmless s (execute cfg h s) := by
  unfold execute
  split
  · exact harmless_same _
  split
  · exact executeCommand_harmless
  · exact executeData_harmless
  · exact harmless_same _

/-- An answer with an error leaves `s` alone, unless a hook failed. -/
def Refusal (s : Session) (r : Session × List Byte × List Call) : Prop :=
  errorReply r.2.1 = true → (∀ c ∈ r.2.2, c.fails = false) → r.1 = s ∧ r.2.2 = []

theorem respond_refusal {op : Byte} {extra : List Byte} {r : Session × Status × List Call}
    (hr : Harmless s r) : Refusal s (respond op extra r) := by
  intro herr hcalls
  have hstatus : r.2.1 ≠ .ok := errorReply_response herr
  simp only [respond, if_neg hstatus] at hcalls ⊢
  exact hr hstatus hcalls

theorem secureDfuControl_refusal (inp : List Byte) : Refusal s (secureDfuControl cfg h s inp) := by
  unfold secureDfuControl
  split
  · exact fun _ _ => ⟨rfl, rfl⟩
  split
  · split
    · exact respond_refusal (create_harmless _ _)
    · exact respond_refusal (harmless_same _)
  split
  · split
    · exact respond_refusal harmless_ok
    · exact respond_refusal (harmless_same _)
  split
  · split
    · split
      · exact respond_refusal (harmless_same _)
      split
      · exact respond_refusal harmless_ok
      · exact respond_refusal (harmless_same _)
    · exact respond_refusal (harmless_same _)
  split
  · split
    · split
      · exact respond_refusal harmless_ok
      · exact respond_refusal (harmless_same _)
    · exact respond_refusal (harmless_same _)
  split
  · split
    · exact respond_refusal execute_harmless
    · exact respond_refusal (harmless_same _)
  · exact respond_refusal (harmless_same _)

theorem packetReceipt_reply (s : Session) : errorReply (packetReceipt s).2.1 = false := by
  unfold packetReceipt
  split
  · rfl
  simp only
  split
  · unfold checksum
    split
    · rfl
    · rfl
  · rfl

theorem secureDfuPacket_refusal (inp : List Byte) : Refusal s (secureDfuPacket s inp) := by
  unfold secureDfuPacket
  by_cases hcmd : s.selected = some .command
  · simp only [hcmd, if_true]
    split
    · exact fun _ _ => ⟨rfl, rfl⟩
    · intro herr
      rw [packetReceipt_reply] at herr
      cases herr
  · simp only [hcmd, if_false]
    split
    · exact fun _ _ => ⟨rfl, rfl⟩
    · intro herr
      rw [packetReceipt_reply] at herr
      cases herr

/-! ## Sender and session -/

/-- An init packet and the firmware it announces. -/
structure Transfer (cfg : Platform) where
  command : List Byte
  image : Image
  firmware : List Byte
  parsed : secureDfuParseCommand cfg command = some image
  size : image.size = firmware.length

/-- What the sender does next; offsets are those of the next byte. -/
inductive Todo where
  | selectCommand
  | createCommand
  | sendCommand (offset : Nat)
  | executeCommand
  | selectData
  | executeData (offset : Nat)
  | createData (offset : Nat)
  | sendData (offset : Nat)
  | done
  | aborted
  deriving DecidableEq, Repr

/-- The sender has seen the command accepted. -/
def Todo.inData : Todo → Bool
  | .selectData | .executeData _ | .createData _ | .sendData _ | .done => true
  | _ => false

/-- The session, the sender, and the hook calls so far. -/
structure World where
  session : Session := secureDfuInit
  todo : Todo := .selectCommand
  calls : List Call := []

/-- The data handed to `secure_dfu_write`, call by call. -/
def writes (calls : List Call) : List (List Byte) :=
  calls.filterMap fun
    | .write d _ => some d
    | _ => none

def works : Hooks := ⟨true, true, true⟩

/-- The offset in the response to SELECT. -/
def reportedOffset (reply : List Byte) : Nat := wordAt reply 7

def statusOf (reply : List Byte) : Byte := reply.getD 2 0

/-- The end of the object at an offset. -/
def objectEnd (size offset : Nat) : Nat := min (offset / objectMax * objectMax + objectMax) size

/-- The answer `r` to a request of the sender, who then goes on. -/
def World.answered (w : World) (r : Session × List Byte × List Call) (todo : Todo) : World :=
  ⟨r.1, todo, w.calls ++ r.2.2⟩

section Sender

variable (t : Transfer cfg)

/-- The sender's next request. A packet takes up to `n + 1` bytes of the object. -/
def proceed (n : Nat) (w : World) : World :=
  let control := secureDfuControl cfg works w.session
  match w.todo with
  | .selectCommand =>
    let r := control [6, 1]
    let offset := reportedOffset r.2.1
    w.answered r (if offset = 0 then .createCommand
      else if offset < t.command.length then .sendCommand offset else .executeCommand)
  | .createCommand =>
    let r := control ([1, 1] ++ put32 t.command.length)
    w.answered r (if statusOf r.2.1 = 1 then .sendCommand 0 else .aborted)
  | .sendCommand offset =>
    let d := (t.command.drop offset).take (n + 1)
    let r := secureDfuPacket w.session d
    w.answered r (if errorReply r.2.1 then .aborted
      else if offset + d.length = t.command.length then .executeCommand
      else .sendCommand (offset + d.length))
  | .executeCommand =>
    let r := control [4]
    w.answered r (if statusOf r.2.1 = 1 then .selectData else .aborted)
  | .selectData =>
    let r := control [6, 2]
    let offset := reportedOffset r.2.1
    w.answered r (if offset % objectMax = 0 ∨ offset = t.firmware.length then .executeData offset
      else .sendData offset)
  | .executeData offset =>
    -- an object that was executed before, or has no bytes yet, is tolerated
    let r := control [4]
    w.answered r (if statusOf r.2.1 = 1 ∨ statusOf r.2.1 = 8 then
      if offset = t.firmware.length then .done else .createData offset
      else .aborted)
  | .createData offset =>
    let r := control ([1, 2] ++ put32 (objectEnd t.firmware.length offset - offset))
    w.answered r (if statusOf r.2.1 = 1 then .sendData offset else .aborted)
  | .sendData offset =>
    let d := ((t.firmware.take (objectEnd t.firmware.length offset)).drop offset).take (n + 1)
    let r := secureDfuPacket w.session d
    w.answered r (if errorReply r.2.1 then .aborted
      else if offset + d.length = objectEnd t.firmware.length offset then
        .executeData (offset + d.length)
      else .sendData (offset + d.length))
  | .done | .aborted => w

inductive LinkEvent where
  | proceed (n : Nat)
  /-- A request that is not the transfer's. -/
  | control (inp : List Byte)
  | packet (inp : List Byte)
  /-- The link is lost and made again; the sender resumes with the command, or with the
  data if it knows the command to be accepted. -/
  | lost (resumeData : Bool)
  deriving DecidableEq, Repr

/-- The session on a new link: `secure_dfu_ble_event` clears the receipts only. -/
def relinked (s : Session) : Session := { s with prnCount := 0 }

def linkStep (w : World) : LinkEvent → World
  | .proceed n => proceed t n w
  | .control inp => w.answered (secureDfuControl cfg works w.session inp) w.todo
  | .packet inp => w.answered (secureDfuPacket w.session inp) w.todo
  | .lost resumeData =>
    { w with
      session := relinked w.session
      todo := if resumeData && w.todo.inData then .selectData else .selectCommand }

variable (cfg) in
/-- Requests in between are refused, or ask for receipts and checksums. -/
def Interrupts (w : World) : LinkEvent → Prop
  | .control inp => errorReply (secureDfuControl cfg works w.session inp).2.1 = true ∨
      inp.head? = some 2 ∨ inp.head? = some 3
  | .packet inp => errorReply (secureDfuPacket w.session inp).2.1 = true
  | _ => True

instance (w : World) (e : LinkEvent) : Decidable (Interrupts cfg w e) :=
  match e with
  | .control _ => inferInstanceAs (Decidable (_ ∨ _ ∨ _))
  | .packet _ => inferInstanceAs (Decidable (_ = _))
  | .proceed _ | .lost _ => inferInstanceAs (Decidable True)

/-- The objects of the image. -/
def Transfer.object (k : Nat) : List Byte := (t.firmware.drop (k * objectMax)).take objectMax

def Transfer.objects : List (List Byte) :=
  (List.range ((t.firmware.length + objectMax - 1) / objectMax)).map t.object

end Sender

theorem relinked_ble (b : Ble) :
    (onConnected (onDisconnected b)).session = relinked b.session := rfl

/-! ## The invariant -/

section Invariant

variable {t : Transfer cfg} {w : World} {k : Nat}

/-- Before the command is accepted: the command object is a part of the transfer's. -/
structure Waiting (t : Transfer cfg) (s : Session) : Prop where
  failed : s.failed = false
  initialized : s.initialized = false
  executed : s.executed = false
  completed : s.completed = false
  committed : s.committed = 0
  objectSize : s.objectSize = 0
  objectOffset : s.objectOffset = 0
  command_length : s.command.length = commandMax
  data_length : s.data.length = objectMax
  offset_le : s.commandOffset ≤ t.command.length
  size : s.commandSize = t.command.length ∨ s.commandOffset = 0
  filled : s.command.take s.commandOffset = t.command.take s.commandOffset

/-- The object in RAM is a part of the next one. -/
structure Filling (t : Transfer cfg) (s : Session) : Prop where
  executed : s.executed = false
  more : s.committed < t.firmware.length
  size : s.objectSize = min objectMax (t.firmware.length - s.committed)
  offset_le : s.objectOffset ≤ s.objectSize
  filled : s.data.take s.objectOffset = (t.firmware.drop s.committed).take s.objectOffset

/-- The command is accepted and `k` objects are committed. -/
structure Loading (t : Transfer cfg) (k : Nat) (s : Session) : Prop where
  failed : s.failed = false
  initialized : s.initialized = true
  command : s.commandOffset = t.command.length
  image : s.image = t.image
  committed : s.committed = min (k * objectMax) t.firmware.length
  last : k * objectMax < t.firmware.length + objectMax
  completed : s.completed = true → s.committed = t.firmware.length
  data_length : s.data.length = objectMax
  object : (s.objectSize = 0 ∧ s.objectOffset = 0) ∨ Filling t s

/-- What the sender relies on. -/
def TodoOk (t : Transfer cfg) (s : Session) : Todo → Prop
  | .selectCommand => True
  | .createCommand => s.initialized = false
  | .sendCommand offset => s.initialized = false ∧ s.selected = some .command ∧
      s.commandOffset = offset ∧ offset < t.command.length ∧ s.commandSize = t.command.length
  | .executeCommand => s.selected = some .command ∧ s.commandOffset = t.command.length
  | .selectData => s.initialized = true
  | .executeData offset => s.initialized = true ∧ s.selected = some .data ∧
      offset = s.committed + s.objectOffset ∧
      (offset % objectMax = 0 ∨ offset = t.firmware.length)
  | .createData offset => s.initialized = true ∧ s.committed = offset ∧
      offset < t.firmware.length
  | .sendData offset => s.initialized = true ∧ s.selected = some .data ∧ Filling t s ∧
      offset = s.committed + s.objectOffset ∧ s.objectOffset < s.objectSize
  | .done => s.initialized = true ∧ s.committed = t.firmware.length
  | .aborted => False

/-- The session is on its way through the transfer, and has written what it committed. -/
def OnTrack (t : Transfer cfg) (s : Session) (calls : List Call) : Prop :=
  (Waiting t s ∧ writes calls = []) ∨
    ∃ k, Loading t k s ∧ writes calls = (List.range k).map t.object

def ResumeInv (t : Transfer cfg) (w : World) : Prop :=
  OnTrack t w.session w.calls ∧ TodoOk t w.session w.todo

theorem Transfer.command_bounds (t : Transfer cfg) :
    0 < t.command.length ∧ t.command.length ≤ commandMax := by
  have hparsed := t.parsed
  unfold secureDfuParseCommand at hparsed
  split at hparsed
  · cases hparsed
  · rename_i hlen
    rw [not_or] at hlen
    exact ⟨List.length_pos_iff.mpr hlen.1, by omega⟩

theorem Transfer.firmware_lt (t : Transfer cfg) :
    0 < t.firmware.length ∧ t.firmware.length < 2 ^ 32 := by
  have hsize := secureDfuParseCommand_size t.parsed
  have := cfg.maxImage_lt
  rw [t.size] at hsize
  omega

theorem resumeInv_init (t : Transfer cfg) : ResumeInv t {} := by
  refine ⟨.inl ⟨⟨rfl, rfl, rfl, rfl, rfl, rfl, rfl, List.length_replicate, List.length_replicate,
    Nat.zero_le _, .inr rfl, rfl⟩, rfl⟩, trivial⟩

/-- Receipts, and a new link, are of no account. -/
theorem OnTrack.quiet {s : Session} {calls : List Call} (h : OnTrack t s calls)
    (sel : Option ObjectType) (prn cnt : Nat) :
    OnTrack t { s with selected := sel, prn := prn, prnCount := cnt } calls := by
  rcases h with ⟨h, hw⟩ | ⟨k, h, hw⟩
  · exact .inl ⟨{ h with }, hw⟩
  · refine .inr ⟨k, { h with object := ?_ }, hw⟩
    rcases h.object with hidle | hfill
    · exact .inl hidle
    · exact .inr { hfill with }

theorem TodoOk.quiet {s : Session} {todo : Todo} (h : TodoOk t s todo) (prn cnt : Nat) :
    TodoOk t { s with prn := prn, prnCount := cnt } todo := by
  cases todo with
  | sendData offset => exact ⟨h.1, h.2.1, { h.2.2.1 with }, h.2.2.2⟩
  | _ => exact h

theorem OnTrack.initialized_of_ne {s : Session} {calls : List Call} (h : OnTrack t s calls)
    (hi : s.initialized = true) : ∃ k, Loading t k s ∧ writes calls = (List.range k).map t.object := by
  rcases h with ⟨h, -⟩ | h
  · rw [h.initialized] at hi
    cases hi
  · exact h

theorem OnTrack.waiting {s : Session} {calls : List Call} (h : OnTrack t s calls)
    (hi : s.initialized = false) : Waiting t s ∧ writes calls = [] := by
  rcases h with h | ⟨k, h, -⟩
  · exact h
  · rw [h.initialized] at hi
    cases hi

/-! ## The requests of the sender -/

@[simp] theorem writes_append (a b : List Call) : writes (a ++ b) = writes a ++ writes b :=
  List.filterMap_append

theorem select_command : secureDfuControl cfg h s [6, 1] =
    ({ s with selected := some .command }, [0x60, 6, 1] ++ (put32 commandMax ++
      (put32 s.commandOffset ++ put32 s.commandCrc.toNat)), [.activity]) := rfl

theorem select_data : secureDfuControl cfg h s [6, 2] =
    ({ s with selected := some .data }, [0x60, 6, 1] ++ (put32 objectMax ++
      (put32 (add32 s.committed s.objectOffset) ++ put32 s.dataCrc.toNat)), [.activity]) := rfl

theorem reportedOffset_select {max n crc : Nat} (hn : n < 2 ^ 32) :
    reportedOffset ([0x60, 6, 1] ++ (put32 max ++ (put32 n ++ put32 crc))) = n := get32_put32 hn

theorem create_command {n : Nat} (hn : n < 2 ^ 32) : secureDfuControl cfg h s ([1, 1] ++ put32 n) =
    respond 1 [] (create s 1 n) := by
  change respond 1 [] (create s 1 (get32 _ _ _ _)) = _
  rw [get32_put32 hn]

theorem create_data {n : Nat} (hn : n < 2 ^ 32) : secureDfuControl cfg h s ([1, 2] ++ put32 n) =
    respond 1 [] (create s 2 n) := by
  change respond 1 [] (create s 2 (get32 _ _ _ _)) = _
  rw [get32_put32 hn]

theorem execute_request : secureDfuControl cfg h s [4] = respond 4 [] (execute cfg h s) := rfl

theorem statusOf_respond {op : Byte} {r : Session × Status × List Call} :
    statusOf (respond op [] r).2.1 = r.2.1.code := rfl

theorem OnTrack.calls {s : Session} {calls calls' : List Call} (h : OnTrack t s calls)
    (heq : writes calls' = writes calls) : OnTrack t s calls' := by
  unfold OnTrack at h ⊢
  rwa [heq]

theorem resumeInv_selectCommand (hw : ResumeInv t w) (htodo : w.todo = .selectCommand) (n : Nat) :
    ResumeInv t (proceed t n w) := by
  obtain ⟨hpos, hmax⟩ := t.command_bounds
  have hcmd : commandMax = 256 := rfl
  have hle : w.session.commandOffset ≤ t.command.length := by
    rcases hw.1 with ⟨h, -⟩ | ⟨k, h, -⟩
    · exact h.offset_le
    · exact Nat.le_of_eq h.command
  have htrack := hw.1.quiet (some .command) w.session.prn w.session.prnCount
  unfold proceed
  rw [htodo]
  simp only [select_command, reportedOffset_select (show w.session.commandOffset < 2 ^ 32 by omega)]
  refine ⟨htrack.calls (by simp [World.answered, writes]), ?_⟩
  have hinit : w.session.commandOffset < t.command.length → w.session.initialized = false := by
    intro hlt
    rcases hw.1 with ⟨h, -⟩ | ⟨k, h, -⟩
    · exact h.initialized
    · rw [h.command] at hlt
      omega
  simp only [World.answered]
  split_ifs with h0 hlt
  · exact hinit (by omega)
  · refine ⟨hinit hlt, rfl, rfl, hlt, ?_⟩
    rcases (hw.1.waiting (hinit hlt)).1.size with hsize | hzero
    · exact hsize
    · exact absurd hzero h0
  · exact ⟨rfl, by simp only; omega⟩

theorem resumeInv_createCommand (hw : ResumeInv t w) (htodo : w.todo = .createCommand) (n : Nat) :
    ResumeInv t (proceed t n w) := by
  obtain ⟨hpos, hmax⟩ := t.command_bounds
  have hcmd : commandMax = 256 := rfl
  have hok := hw.2
  rw [htodo] at hok
  obtain ⟨hwait, hwrites⟩ := hw.1.waiting hok
  have hcreate : create w.session 1 t.command.length =
      ({ secureDfuInit with
          prn := w.session.prn, commandSize := t.command.length, selected := some .command },
        .ok, [.reset]) := by
    unfold create
    rw [hwait.failed, hwait.completed, if_neg (by decide)]
    change (if t.command.length = 0 ∨ commandMax < t.command.length then _ else _) = _
    rw [if_neg (by omega)]
  unfold proceed
  rw [htodo]
  simp only [create_command (show t.command.length < 2 ^ 32 by omega), hcreate, statusOf_respond]
  refine ⟨.inl ⟨⟨rfl, rfl, rfl, rfl, rfl, rfl, rfl, List.length_replicate, List.length_replicate,
    Nat.zero_le _, .inl rfl, rfl⟩, ?_⟩, ?_⟩
  · change writes (w.calls ++ [.reset, .activity]) = []
    rw [writes_append, hwrites]
    rfl
  · exact ⟨rfl, rfl, rfl, hpos, rfl⟩

/-- A packet for the command object that fits. -/
theorem packet_command {d : List Byte} (hf : s.failed = false) (hi : s.initialized = false)
    (hsel : s.selected = some .command) (hd : d ≠ [])
    (hfit : s.commandOffset + d.length ≤ s.commandSize) :
    secureDfuPacket s d = packetReceipt (fillCommand s d) := by
  unfold secureDfuPacket
  simp only [hsel, if_true]
  rw [if_neg]
  simp [packetRefused, hf, hi, hsel, hd]
  omega

theorem packetReceipt_session (s : Session) :
    ∃ cnt, (packetReceipt s).1 = { s with prnCount := cnt } ∧ (packetReceipt s).2.2 = [.activity] := by
  unfold packetReceipt
  split
  · exact ⟨s.prnCount, rfl, rfl⟩
  simp only
  split
  · exact ⟨0, rfl, rfl⟩
  · exact ⟨_, rfl, rfl⟩

/-- The bytes below `o` and a piece from there on. -/
theorem take_append_piece {l d : List Byte} {o n : Nat} (hd : d = (l.drop o).take n) :
    l.take o ++ d = l.take (o + d.length) := by
  have hprefix : d = (l.drop o).take d.length :=
    List.prefix_iff_eq_take.mp (hd ▸ List.take_prefix _ _)
  rw [List.take_add, ← hprefix]

theorem resumeInv_sendCommand {offset : Nat} (hw : ResumeInv t w)
    (htodo : w.todo = .sendCommand offset) (n : Nat) : ResumeInv t (proceed t n w) := by
  obtain ⟨hpos, hmax⟩ := t.command_bounds
  have hcmd : commandMax = 256 := rfl
  have hok := hw.2
  rw [htodo] at hok
  obtain ⟨hi, hsel, rfl, hlt, hsize⟩ := hok
  obtain ⟨hwait, hwrites⟩ := hw.1.waiting hi
  set d := (t.command.drop w.session.commandOffset).take (n + 1) with hd
  have hlen : d.length = min (n + 1) (t.command.length - w.session.commandOffset) := by
    rw [hd, List.length_take, List.length_drop]
  have hne : d ≠ [] := List.length_pos_iff.mp (by omega)
  have hpacket := packet_command hwait.failed hi hsel hne (by omega)
  obtain ⟨cnt, hsession, hcalls⟩ := packetReceipt_session (fillCommand w.session d)
  unfold proceed
  rw [htodo]
  simp only [← hd, hpacket, packetReceipt_reply, Bool.false_eq_true, if_false]
  unfold World.answered
  rw [hsession, hcalls]
  have hoffset : add32 w.session.commandOffset d.length = w.session.commandOffset + d.length :=
    add32_eq (by omega)
  refine ⟨.inl ⟨{ hwait with
    command_length := ?_, offset_le := ?_, size := .inl hsize, filled := ?_ }, ?_⟩, ?_⟩
  · simp only [fillCommand]
    rw [memcpy_length (by rw [hwait.command_length]; omega), hwait.command_length]
  · simp only [fillCommand, hoffset]
    omega
  · simp only [fillCommand, hoffset]
    rw [memcpy_take (by rw [hwait.command_length]; omega), hwait.filled, take_append_piece hd]
  · rw [writes_append, hwrites]
    rfl
  · split_ifs with hend
    · exact ⟨hsel, hoffset.trans hend⟩
    · exact ⟨hi, hsel, hoffset, by omega, hsize⟩

theorem execute_command (hf : s.failed = false) (hsel : s.selected = some .command) :
    execute cfg h s = executeCommand cfg h s := by
  unfold execute
  rw [hf, if_neg Bool.false_ne_true, hsel]

theorem resumeInv_executeCommand (hw : ResumeInv t w) (htodo : w.todo = .executeCommand) (n : Nat) :
    ResumeInv t (proceed t n w) := by
  obtain ⟨hpos, hmax⟩ := t.command_bounds
  have hok := hw.2
  rw [htodo] at hok
  obtain ⟨hsel, hoffset⟩ := hok
  unfold proceed
  rw [htodo]
  rcases hw.1 with ⟨hwait, hwrites⟩ | ⟨k, hload, hwrites⟩
  · have hsize : w.session.commandSize = t.command.length := by
      rcases hwait.size with hsize | hzero
      · exact hsize
      · omega
    have hbytes : w.session.command.take w.session.commandSize = t.command := by
      rw [hsize, ← hoffset, hwait.filled, hoffset, List.take_length]
    have hexec : secureDfuControl cfg works w.session [4] =
        ({ w.session with image := t.image, initialized := true }, [0x60, 4, 1],
          [.begin t.image true, .activity]) := by
      rw [execute_request, execute_command hwait.failed hsel]
      unfold executeCommand
      rw [hwait.initialized, if_neg Bool.false_ne_true, if_neg (by omega), hbytes, t.parsed]
      rfl
    simp only [hexec]
    refine ⟨.inr ⟨0, ⟨hwait.failed, rfl, hoffset, rfl, ?_, ?_, ?_, hwait.data_length,
      .inl ⟨hwait.objectSize, hwait.objectOffset⟩⟩, ?_⟩, rfl⟩
    · simp [World.answered, hwait.committed]
    · have := t.firmware_lt
      omega
    · intro hc
      change w.session.completed = true at hc
      rw [hwait.completed] at hc
      cases hc
    · change writes (w.calls ++ [.begin t.image true, .activity]) = []
      rw [writes_append, hwrites]
      rfl
  · have hexec : secureDfuControl cfg works w.session [4] =
        (w.session, [0x60, 4, 1], [.activity]) := by
      rw [execute_request, execute_command hload.failed hsel]
      unfold executeCommand
      rw [hload.initialized, if_pos rfl]
      rfl
    simp only [hexec]
    refine ⟨.inr ⟨k, hload, ?_⟩, hload.initialized⟩
    change writes (w.calls ++ [.activity]) = _
    rw [writes_append, hwrites]
    exact List.append_nil _

/-! ## Objects -/

theorem Loading.boundary (hload : Loading t k s) :
    s.committed = k * objectMax ∨ s.committed = t.firmware.length := by
  have := hload.committed
  omega

theorem resumeInv_selectData (hw : ResumeInv t w) (htodo : w.todo = .selectData) (n : Nat) :
    ResumeInv t (proceed t n w) := by
  have hobj : objectMax = 4096 := rfl
  obtain ⟨hpos, hlt⟩ := t.firmware_lt
  have hok := hw.2
  rw [htodo] at hok
  obtain ⟨k, hload, hwrites⟩ := hw.1.initialized_of_ne hok
  have hcommitted := hload.committed
  have hsum : w.session.committed + w.session.objectOffset ≤ t.firmware.length := by
    rcases hload.object with ⟨-, h0⟩ | hfill
    · omega
    · have := hfill.offset_le
      have := hfill.size
      omega
  have htrack := hw.1.quiet (some .data) w.session.prn w.session.prnCount
  have hadd : add32 w.session.committed w.session.objectOffset =
      w.session.committed + w.session.objectOffset := add32_eq (by omega)
  unfold proceed
  rw [htodo]
  simp only [select_data, hadd, reportedOffset_select (show w.session.committed +
    w.session.objectOffset < 2 ^ 32 by omega)]
  refine ⟨htrack.calls (by simp [World.answered, writes]), ?_⟩
  simp only [World.answered]
  split_ifs with hend
  · exact ⟨hok, rfl, rfl, hend⟩
  · -- inside an object
    rw [not_or] at hend
    rcases hload.object with ⟨-, h0⟩ | hfill
    · rcases hload.boundary with hb | hb
      · refine absurd ?_ hend.1
        rw [h0, hb, Nat.add_zero, Nat.mul_mod_left]
      · omega
    · refine ⟨hok, rfl, { hfill with }, rfl, ?_⟩
      have hle := hfill.offset_le
      have hsize := hfill.size
      have hmore := hfill.more
      simp only
      by_contra hge
      have hfull : w.session.objectOffset = w.session.objectSize := by omega
      rcases hload.boundary with hb | hb
      · rw [hobj] at hend hsize hb
        omega
      · omega

theorem execute_data (hf : s.failed = false) (hsel : s.selected = some .data) :
    execute cfg h s = executeData h s := by
  unfold execute
  rw [hf, if_neg Bool.false_ne_true, hsel]

/-- A complete object is written and committed. -/
theorem executeData_full (hload : Loading t k s) (hfill : Filling t s)
    (hfull : s.objectOffset = s.objectSize) :
    ∃ s' calls, executeData works s = (s', .ok, calls) ∧ Loading t (k + 1) s' ∧
      s'.committed = s.committed + s.objectSize ∧ writes calls = [t.object k] := by
  have hobj : objectMax = 4096 := rfl
  obtain ⟨hpos, hlt⟩ := t.firmware_lt
  have hmore := hfill.more
  have hsize := hfill.size
  have hcommitted : s.committed = k * objectMax := by
    have := hload.committed
    omega
  have hadd : add32 s.committed s.objectSize = s.committed + s.objectSize := add32_eq (by omega)
  have hobject : s.data.take s.objectSize = t.object k := by
    rw [← hfull, hfill.filled, hfull, hsize, hcommitted]
    unfold Transfer.object
    rw [List.take_eq_take_iff, List.length_drop]
    omega
  have hnext : Loading t (k + 1) (commitObject s) := by
    refine ⟨hload.failed, hload.initialized, hload.command, hload.image, ?_, ?_, ?_,
      hload.data_length, .inl ⟨rfl, rfl⟩⟩
    · simp only [commitObject, hadd]
      rw [Nat.succ_mul]
      omega
    · rw [Nat.succ_mul]
      omega
    · intro hc
      have := hload.completed hc
      omega
  unfold executeData
  rw [hload.initialized, hfill.executed, if_neg (by decide), if_neg (by decide),
    if_neg (by rw [hobj] at hsize; omega)]
  simp only [works, Bool.not_true, Bool.false_eq_true, if_false, hobject]
  by_cases hlast : (commitObject s).committed = (commitObject s).image.size
  · rw [if_pos hlast, if_pos trivial]
    refine ⟨_, _, rfl, { hnext with completed := fun _ => ?_, object := .inl ⟨rfl, rfl⟩ }, hadd, rfl⟩
    rw [hnext.image, t.size] at hlast
    exact hlast
  · rw [if_neg hlast]
    exact ⟨_, _, rfl, hnext, hadd, rfl⟩

/-- Without a complete object nothing happens. -/
theorem executeData_idle (hload : Loading t k s)
    (hidle : s.objectSize = 0 ∨ (s.executed = false ∧ s.objectOffset ≠ s.objectSize)) :
    ∃ status, executeData works s = (s, status, []) ∧ (status = .ok ∨ status = .notPermitted) := by
  unfold executeData
  rw [hload.initialized, if_neg (by decide)]
  by_cases hexec : s.executed = true
  · rw [if_pos hexec]
    exact ⟨.ok, rfl, .inl rfl⟩
  · rw [if_neg hexec, if_pos (by tauto)]
    exact ⟨.notPermitted, rfl, .inr rfl⟩

theorem execute_answer {s' : Session} {status : Status} {calls : List Call} (hf : s.failed = false)
    (hsel : s.selected = some .data) (hexec : executeData works s = (s', status, calls)) :
    secureDfuControl cfg works s [4] = respond 4 [] (s', status, calls) := by
  rw [execute_request, execute_data hf hsel, hexec]

/-- The sender tolerates the answer, and all before `offset` is committed. -/
theorem resumeInv_executed {s' : Session} {status : Status} {calls : List Call} {offset : Nat}
    (htodo : w.todo = .executeData offset) (n : Nat)
    (hanswer : secureDfuControl cfg works w.session [4] = respond 4 [] (s', status, calls))
    (hstatus : status = .ok ∨ status = .notPermitted) (hload : Loading t k s')
    (hwrites : writes (w.calls ++ calls) = (List.range k).map t.object)
    (hoffset : s'.committed = offset) : ResumeInv t (proceed t n w) := by
  have hle : s'.committed ≤ t.firmware.length := by
    have := hload.committed
    omega
  unfold proceed
  rw [htodo]
  simp only [hanswer]
  have hcode : statusOf (respond 4 [] (s', status, calls)).2.1 = 1 ∨
      statusOf (respond 4 [] (s', status, calls)).2.1 = 8 := by
    rcases hstatus with rfl | rfl
    · exact .inl rfl
    · exact .inr rfl
  rw [if_pos hcode]
  refine ⟨.inr ⟨k, hload, ?_⟩, ?_⟩
  · simp only [World.answered, respond]
    split_ifs
    · rw [← List.append_assoc, writes_append, hwrites]
      exact List.append_nil _
    · exact hwrites
  · simp only [World.answered, respond]
    split_ifs with hend
    · exact ⟨hload.initialized, hoffset.trans hend⟩
    · exact ⟨hload.initialized, hoffset, by omega⟩

theorem resumeInv_executeData {offset : Nat} (hw : ResumeInv t w)
    (htodo : w.todo = .executeData offset) (n : Nat) : ResumeInv t (proceed t n w) := by
  have hobj : objectMax = 4096 := rfl
  have hok := hw.2
  rw [htodo] at hok
  obtain ⟨hi, hsel, hoffset, hend⟩ := hok
  obtain ⟨k, hload, hwrites⟩ := hw.1.initialized_of_ne hi
  by_cases hfull : Filling t w.session ∧ w.session.objectOffset = w.session.objectSize
  · obtain ⟨s', calls, hexec, hload', hcommitted, hobject⟩ :=
      executeData_full hload hfull.1 hfull.2
    refine resumeInv_executed htodo n (execute_answer hload.failed hsel hexec) (.inl rfl) hload' ?_ ?_
    · rw [writes_append, hwrites, hobject, List.range_succ, List.map_append]
      rfl
    · rw [hcommitted, hoffset, hfull.2]
  · -- at a boundary, an object that is not complete is empty
    have hempty : w.session.objectOffset = 0 ∧
        (w.session.objectSize = 0 ∨ (w.session.executed = false ∧
          w.session.objectOffset ≠ w.session.objectSize)) := by
      rcases hload.object with ⟨hsize, h0⟩ | hfill
      · exact ⟨h0, .inl hsize⟩
      · have hne : w.session.objectOffset ≠ w.session.objectSize := fun h => hfull ⟨hfill, h⟩
        refine ⟨?_, .inr ⟨hfill.executed, hne⟩⟩
        have hle := hfill.offset_le
        have hsize := hfill.size
        have hmore := hfill.more
        have hb := hload.boundary
        rw [hobj] at hend hsize hb
        omega
    obtain ⟨status, hexec, hstatus⟩ := executeData_idle hload hempty.2
    refine resumeInv_executed htodo n (execute_answer hload.failed hsel hexec) hstatus hload ?_ ?_
    · rw [List.append_nil]
      exact hwrites
    · rw [hoffset, hempty.1, Nat.add_zero]

theorem resumeInv_createData {offset : Nat} (hw : ResumeInv t w)
    (htodo : w.todo = .createData offset) (n : Nat) : ResumeInv t (proceed t n w) := by
  have hobj : objectMax = 4096 := rfl
  obtain ⟨hpos, hlt⟩ := t.firmware_lt
  have hok := hw.2
  rw [htodo] at hok
  obtain ⟨hi, rfl, hmore⟩ := hok
  obtain ⟨k, hload, hwrites⟩ := hw.1.initialized_of_ne hi
  have hcommitted : w.session.committed = k * objectMax := by
    rcases hload.boundary with hb | hb
    · exact hb
    · omega
  have hsize : objectEnd t.firmware.length w.session.committed - w.session.committed =
      min objectMax (t.firmware.length - w.session.committed) := by
    unfold objectEnd
    rw [hcommitted, Nat.mul_div_cancel _ (by decide)]
    omega
  have hcompleted : w.session.completed = false := by
    by_contra hc
    have := hload.completed (by simpa using hc)
    omega
  set size := min objectMax (t.firmware.length - w.session.committed) with hs
  have hcreate : create w.session 2 size =
      ({ w.session with
          objectSize := size, objectOffset := 0, dataCrc := w.session.committedCrc,
          executed := false, selected := some .data, prnCount := 0 }, .ok, []) := by
    unfold create
    rw [hload.failed, hcompleted, if_neg (by decide)]
    change (if (!w.session.initialized) = true then _ else _) = _
    rw [hi, if_neg (by decide)]
    simp only [hload.image, t.size, sub32_eq hlt (Nat.le_of_lt hmore)]
    rw [if_neg (by split_ifs <;> omega), hi, hcompleted, hload.failed]
  unfold proceed
  rw [htodo]
  simp only [hsize, create_data (show size < 2 ^ 32 by omega), hcreate]
  have hfill : Filling t { w.session with
      objectSize := size, objectOffset := 0, dataCrc := w.session.committedCrc,
      executed := false, selected := some .data, prnCount := 0 } :=
    ⟨rfl, hmore, hs, Nat.zero_le _, rfl⟩
  refine ⟨.inr ⟨k, { hload with object := .inr hfill }, ?_⟩, hi, rfl, hfill, rfl, ?_⟩
  · change writes (w.calls ++ [.activity]) = _
    rw [writes_append, hwrites]
    exact List.append_nil _
  · change 0 < size
    omega

theorem packet_data {d : List Byte} (hf : s.failed = false) (hi : s.initialized = true)
    (hexec : s.executed = false) (hsel : s.selected = some .data) (hd : d ≠ [])
    (hfit : s.objectOffset + d.length ≤ s.objectSize) :
    secureDfuPacket s d = packetReceipt (fillObject s d) := by
  unfold secureDfuPacket
  simp only [hsel]
  rw [if_neg, if_neg (by decide)]
  simp [packetRefused, hf, hi, hsel, hd, hexec]
  omega

theorem resumeInv_sendData {offset : Nat} (hw : ResumeInv t w)
    (htodo : w.todo = .sendData offset) (n : Nat) : ResumeInv t (proceed t n w) := by
  have hobj : objectMax = 4096 := rfl
  obtain ⟨hpos, hlt⟩ := t.firmware_lt
  have hok := hw.2
  rw [htodo] at hok
  obtain ⟨hi, hsel, hfill, rfl, hroom⟩ := hok
  obtain ⟨k, hload, hwrites⟩ := hw.1.initialized_of_ne hi
  have hmore := hfill.more
  have hsize := hfill.size
  have hcommitted : w.session.committed = k * objectMax := by
    rcases hload.boundary with hb | hb
    · exact hb
    · omega
  have hend : objectEnd t.firmware.length (w.session.committed + w.session.objectOffset) =
      w.session.committed + w.session.objectSize := by
    unfold objectEnd
    rw [hcommitted, Nat.add_comm (k * objectMax), Nat.add_mul_div_right _ _ (by decide),
      Nat.div_eq_of_lt (by omega), Nat.zero_add]
    omega
  set d := ((t.firmware.take (objectEnd t.firmware.length
    (w.session.committed + w.session.objectOffset))).drop
      (w.session.committed + w.session.objectOffset)).take (n + 1) with hd
  have hpiece : d = ((t.firmware.drop w.session.committed).drop w.session.objectOffset).take
      (min (n + 1) (w.session.objectSize - w.session.objectOffset)) := by
    rw [hd, hend, List.drop_take, List.take_take, List.drop_drop,
      show w.session.committed + w.session.objectSize - (w.session.committed + w.session.objectOffset) =
        w.session.objectSize - w.session.objectOffset by omega]
  have hlen : d.length = min (n + 1) (w.session.objectSize - w.session.objectOffset) := by
    rw [hpiece, List.length_take, List.length_drop, List.length_drop]
    omega
  have hne : d ≠ [] := List.length_pos_iff.mp (by omega)
  have hpacket := packet_data hload.failed hi hfill.executed hsel hne (by omega)
  obtain ⟨cnt, hsession, hcalls⟩ := packetReceipt_session (fillObject w.session d)
  have hoffset : add32 w.session.objectOffset d.length = w.session.objectOffset + d.length :=
    add32_eq (by omega)
  have hfill' : Filling t { fillObject w.session d with prnCount := cnt } := by
    refine ⟨hfill.executed, hmore, hsize, ?_, ?_⟩
    · simp only [fillObject, hoffset]
      omega
    · simp only [fillObject, hoffset]
      rw [memcpy_take (by rw [hload.data_length]; omega), hfill.filled, take_append_piece hpiece]
  unfold proceed
  rw [htodo]
  simp only [← hd, hpacket, packetReceipt_reply, Bool.false_eq_true, if_false]
  unfold World.answered
  rw [hsession, hcalls]
  refine ⟨.inr ⟨k, { hload with data_length := ?_, object := .inr hfill' }, ?_⟩, ?_⟩
  · simp only [fillObject]
    rw [memcpy_length (by rw [hload.data_length]; omega), hload.data_length]
  · rw [writes_append, hwrites]
    exact List.append_nil _
  · have hsum : w.session.committed + w.session.objectOffset + d.length =
        w.session.committed + add32 w.session.objectOffset d.length := by
      rw [hoffset]
      omega
    split_ifs with hdone
    · refine ⟨hi, hsel, hsum, ?_⟩
      rw [hdone, hend]
      by_cases hlast : t.firmware.length - w.session.committed ≤ objectMax
      · exact .inr (by omega)
      · refine .inl ?_
        rw [hcommitted, show w.session.objectSize = objectMax by omega, Nat.add_mod_right,
          Nat.mul_mod_left]
    · refine ⟨hi, hsel, hfill', hsum, ?_⟩
      simp only [fillObject, hoffset]
      omega

/-- The sender goes on. -/
theorem resumeInv_proceed (hw : ResumeInv t w) (n : Nat) : ResumeInv t (proceed t n w) := by
  cases htodo : w.todo with
  | selectCommand => exact resumeInv_selectCommand hw htodo n
  | createCommand => exact resumeInv_createCommand hw htodo n
  | sendCommand offset => exact resumeInv_sendCommand hw htodo n
  | executeCommand => exact resumeInv_executeCommand hw htodo n
  | selectData => exact resumeInv_selectData hw htodo n
  | executeData offset => exact resumeInv_executeData hw htodo n
  | createData offset => exact resumeInv_createData hw htodo n
  | sendData offset => exact resumeInv_sendData hw htodo n
  | done =>
    unfold proceed
    rw [htodo]
    exact hw
  | aborted =>
    have hfalse := hw.2
    rw [htodo] at hfalse
    exact hfalse.elim

/-- With hooks that succeed, no call reports a failure. -/
theorem execute_works : ∀ c ∈ (execute cfg works s).2.2, c.fails = false := by
  have hcommand : ∀ c ∈ (executeCommand cfg works s).2.2, c.fails = false := by
    unfold executeCommand
    split
    · simp
    split
    · simp
    split
    · simp
    · simp [works, Call.fails]
  have hdata : ∀ c ∈ (executeData works s).2.2, c.fails = false := by
    unfold executeData
    split
    · simp
    split
    · simp
    split
    · simp
    simp only [works, Bool.not_true, Bool.false_eq_true, if_false, if_true]
    split
    · simp [Call.fails]
    · simp [Call.fails]
  unfold execute
  split
  · simp
  split
  · exact hcommand
  · exact hdata
  · simp

theorem respond_works {op : Byte} {extra : List Byte} {r : Session × Status × List Call}
    (hr : ∀ c ∈ r.2.2, c.fails = false) : ∀ c ∈ (respond op extra r).2.2, c.fails = false := by
  intro c hc
  simp only [respond] at hc
  split at hc
  · rcases List.mem_append.mp hc with hc | hc
    · exact hr c hc
    · rw [List.mem_singleton.mp hc]
      rfl
  · exact hr c hc

theorem create_works (type : Byte) (n : Nat) : ∀ c ∈ (create s type n).2.2, c.fails = false := by
  unfold create
  split
  · simp
  split
  · split
    · simp
    · simp [Call.fails]
  · split
    · simp
    simp only
    generalize (if sub32 s.image.size s.committed < objectMax then sub32 s.image.size s.committed
      else objectMax) = full
    split
    · simp
    · simp
  · simp

theorem secureDfuControl_works (inp : List Byte) :
    ∀ c ∈ (secureDfuControl cfg works s inp).2.2, c.fails = false := by
  have hnone : ∀ c ∈ ([] : List Call), c.fails = false := by simp
  unfold secureDfuControl
  split
  · exact hnone
  split
  · split
    · exact respond_works (create_works _ _)
    · exact respond_works hnone
  split
  · split
    · exact respond_works hnone
    · exact respond_works hnone
  split
  · split
    · split
      · exact respond_works hnone
      split
      · exact respond_works hnone
      · exact respond_works hnone
    · exact respond_works hnone
  split
  · split
    · split
      · exact respond_works hnone
      · exact respond_works hnone
    · exact respond_works hnone
  split
  · split
    · exact respond_works execute_works
    · exact respond_works hnone
  · exact respond_works hnone

theorem respond_quiet {op : Byte} {extra : List Byte} {s' : Session} {status : Status} :
    (respond op extra (s', status, [])).1 = s' ∧
      writes (respond op extra (s', status, [])).2.2 = [] := by
  refine ⟨rfl, ?_⟩
  unfold respond
  simp only
  split
  · rfl
  · rfl

/-- The receipt requests. -/
theorem receipts_quiet {inp : List Byte} (hop : inp.head? = some 2 ∨ inp.head? = some 3) :
    ∃ prn cnt, (secureDfuControl cfg h s inp).1 = { s with prn := prn, prnCount := cnt } ∧
      writes (secureDfuControl cfg h s inp).2.2 = [] := by
  cases inp with
  | nil => simp at hop
  | cons op args =>
    rw [List.head?_cons, Option.some_inj, Option.some_inj] at hop
    unfold secureDfuControl
    rcases hop with rfl | rfl
    · simp only [show ¬ (2 : Byte) = 1 by decide, if_false, if_true]
      split
      · exact ⟨_, _, respond_quiet⟩
      · exact ⟨s.prn, s.prnCount, respond_quiet⟩
    · simp only [show ¬ (3 : Byte) = 1 by decide, show ¬ (3 : Byte) = 2 by decide, if_false,
        if_true]
      refine ⟨s.prn, s.prnCount, ?_⟩
      split
      · split
        · exact respond_quiet
        split
        · exact respond_quiet
        · exact respond_quiet
      · exact respond_quiet

theorem TodoOk.inData {s : Session} {todo : Todo} (h : TodoOk t s todo) (hd : todo.inData = true) :
    s.initialized = true := by
  cases todo with
  | selectData => exact h
  | executeData offset => exact h.1
  | createData offset => exact h.1
  | sendData offset => exact h.1
  | done => exact h.1
  | _ => cases hd

/-- A refused packet reaches no hook. -/
theorem secureDfuPacket_works (inp : List Byte) :
    ∀ c ∈ (secureDfuPacket s inp).2.2, c.fails = false := by
  have hreceipt : ∀ s : Session, ∀ c ∈ (packetReceipt s).2.2, c.fails = false := by
    intro s c hc
    obtain ⟨cnt, -, hcalls⟩ := packetReceipt_session s
    rw [hcalls, List.mem_singleton] at hc
    rw [hc]
    rfl
  unfold secureDfuPacket
  by_cases hcmd : s.selected = some .command
  · simp only [hcmd, if_true]
    split
    · simp
    · exact hreceipt _
  · simp only [hcmd, if_false]
    split
    · simp
    · exact hreceipt _

theorem resumeInv_step (hw : ResumeInv t w) (e : LinkEvent) (he : Interrupts cfg w e) :
    ResumeInv t (linkStep t w e) := by
  cases e with
  | proceed n => exact resumeInv_proceed hw n
  | control inp =>
    simp only [linkStep, World.answered]
    rcases he with herr | hop
    · obtain ⟨hsame, hcalls⟩ := secureDfuControl_refusal inp herr (secureDfuControl_works inp)
      rw [hsame, hcalls, List.append_nil]
      exact hw
    · have hquiet : ∃ prn cnt, (secureDfuControl cfg works w.session inp).1 =
          { w.session with prn := prn, prnCount := cnt } ∧ _ := receipts_quiet hop
      obtain ⟨prn, cnt, hsame, hwrites⟩ := hquiet
      rw [hsame]
      refine ⟨(hw.1.quiet w.session.selected prn cnt).calls ?_, hw.2.quiet prn cnt⟩
      rw [writes_append, hwrites, List.append_nil]
  | packet inp =>
    simp only [linkStep, World.answered]
    obtain ⟨hsame, hcalls⟩ := secureDfuPacket_refusal inp he (secureDfuPacket_works inp)
    rw [hsame, hcalls, List.append_nil]
    exact hw
  | lost resumeData =>
    refine ⟨hw.1.quiet w.session.selected w.session.prn 0, ?_⟩
    simp only [linkStep]
    split_ifs with hdata
    · rw [Bool.and_eq_true] at hdata
      exact hw.2.inData hdata.2
    · trivial

theorem resumeInv_reach {es : List LinkEvent}
    (hrun : Reach (linkStep t) (Interrupts cfg) {} es w) : ResumeInv t w :=
  hrun.invariant (resumeInv_init t) fun _ e hw he => resumeInv_step hw e he

/-! ## The whole transfer -/

/-- The objects begun before the `k`th are all of the bytes before it. -/
theorem flatten_objects (t : Transfer cfg) (k : Nat) :
    ((List.range k).map t.object).flatten = t.firmware.take (k * objectMax) := by
  induction k with
  | zero => rw [Nat.zero_mul]; rfl
  | succ k ih =>
    rw [List.range_succ, List.map_append, List.flatten_append, ih, Nat.succ_mul, List.take_add]
    rw [List.map_singleton, List.flatten_singleton]
    rfl

theorem objects_flatten (t : Transfer cfg) : t.objects.flatten = t.firmware := by
  have hobj : objectMax = 4096 := rfl
  unfold Transfer.objects
  rw [flatten_objects, List.take_of_length_le]
  rw [hobj]
  omega

theorem Loading.writes_objects (hload : Loading t k s) :
    (List.range k).map t.object <+: t.objects ∧
      (s.committed = t.firmware.length → (List.range k).map t.object = t.objects) := by
  have hobj : objectMax = 4096 := rfl
  have hlast := hload.last
  have hcommitted := hload.committed
  unfold Transfer.objects
  rw [hobj] at hlast hcommitted ⊢
  refine ⟨?_, fun hall => ?_⟩
  · obtain ⟨j, hj⟩ : ∃ j, (t.firmware.length + 4096 - 1) / 4096 = k + j :=
      Nat.exists_eq_add_of_le (by omega)
    rw [hj, List.range_add, List.map_append]
    exact List.prefix_append _ _
  · rw [show (t.firmware.length + 4096 - 1) / 4096 = k by omega]

/-- How many requests the transfer may still need. -/
def Todo.left (t : Transfer cfg) : Todo → Nat
  | .selectCommand => 3 * t.firmware.length + 6 + t.command.length
  | .createCommand => 3 * t.firmware.length + 5 + t.command.length
  | .sendCommand offset => 3 * t.firmware.length + 4 + (t.command.length - offset)
  | .executeCommand => 3 * t.firmware.length + 4
  | .selectData => 3 * t.firmware.length + 3
  | .executeData offset => 3 * (t.firmware.length - offset) + 2
  | .createData offset => 3 * (t.firmware.length - offset) + 1
  | .sendData offset => 3 * (t.firmware.length - offset)
  | .done | .aborted => 0

/-- Every request of the sender brings the end nearer. -/
theorem proceed_left (hw : ResumeInv t w) (hne : w.todo ≠ .done) (n : Nat) :
    (proceed t n w).todo.left t < w.todo.left t := by
  have hobj : objectMax = 4096 := rfl
  have hok := hw.2
  unfold proceed
  cases htodo : w.todo with
  | selectCommand =>
    simp only [World.answered]
    split_ifs
    all_goals simp only [Todo.left]; omega
  | createCommand =>
    simp only [World.answered]
    split_ifs
    all_goals simp only [Todo.left]; omega
  | sendCommand offset =>
    rw [htodo] at hok
    have hlt := hok.2.2.2.1
    simp only [World.answered, List.length_take, List.length_drop]
    split_ifs
    all_goals simp only [Todo.left]; omega
  | executeCommand =>
    simp only [World.answered]
    split_ifs
    all_goals simp only [Todo.left]; omega
  | selectData =>
    simp only [World.answered]
    split_ifs
    all_goals simp only [Todo.left]; omega
  | executeData offset =>
    simp only [World.answered]
    split_ifs
    all_goals simp only [Todo.left]; omega
  | createData offset =>
    simp only [World.answered]
    split_ifs
    all_goals simp only [Todo.left]; omega
  | sendData offset =>
    rw [htodo] at hok
    obtain ⟨-, -, hfill, hoffset, hroom⟩ := hok
    have hmore := hfill.more
    have hsize := hfill.size
    have hend : offset < objectEnd t.firmware.length offset := by
      unfold objectEnd
      rw [hobj]
      omega
    have hlast : objectEnd t.firmware.length offset ≤ t.firmware.length := Nat.min_le_right _ _
    simp only [World.answered, List.length_take, List.length_drop]
    split_ifs
    all_goals simp only [Todo.left]; omega
  | done => exact absurd htodo hne
  | aborted =>
    rw [htodo] at hok
    exact hok.elim

/-- The transfer goes on without interruption, in packets of the given lengths. -/
def proceeds (t : Transfer cfg) (w : World) (ns : List Nat) : World :=
  ns.foldl (fun w n => proceed t n w) w

theorem proceed_done (hdone : w.todo = .done) (n : Nat) : proceed t n w = w := by
  unfold proceed
  rw [hdone]

theorem proceeds_finish (hw : ResumeInv t w) {ns : List Nat} (hns : w.todo.left t ≤ ns.length) :
    (proceeds t w ns).todo = .done := by
  induction ns generalizing w with
  | nil =>
    by_contra hne
    have := proceed_left hw hne 0
    simp only [List.length_nil] at hns
    omega
  | cons n ns ih =>
    by_cases hdone : w.todo = .done
    · change (proceeds t (proceed t n w) ns).todo = _
      rw [proceed_done hdone]
      refine ih hw ?_
      rw [hdone]
      exact Nat.zero_le _
    · have hless := proceed_left hw hdone n
      rw [List.length_cons] at hns
      exact ih (resumeInv_proceed hw n) (Nat.le_of_lt_succ (Nat.lt_of_lt_of_le hless hns))

theorem resumeInv_proceeds (hw : ResumeInv t w) (ns : List Nat) :
    ResumeInv t (proceeds t w ns) := by
  induction ns generalizing w with
  | nil => exact hw
  | cons n ns ih => exact ih (resumeInv_proceed hw n)

/-- What was written is a beginning of the image, and all of it at the end. -/
theorem ResumeInv.written (hw : ResumeInv t w) : writes w.calls <+: t.objects ∧
    (w.todo = .done → writes w.calls = t.objects) := by
  refine ⟨?_, fun hdone => ?_⟩
  · rcases hw.1 with ⟨-, hwrites⟩ | ⟨k, hload, hwrites⟩
    · rw [hwrites]
      exact List.nil_prefix
    · rw [hwrites]
      exact hload.writes_objects.1
  · have hok := hw.2
    rw [hdone] at hok
    obtain ⟨k, hload, hwrites⟩ := hw.1.initialized_of_ne hok.1
    rw [hwrites, hload.writes_objects.2 hok.2]

end Invariant

/-- A refused request changes nothing, unless a hook failed. And whatever is refused in
between, and wherever the link is lost, the sender is never stuck: it can always bring the
transfer to its end, and has then handed the same objects to `secure_dfu_write` as a transfer
without interruption, which are those of the image. -/
theorem secure_dfu_resume_exact {cfg : Platform} :
    (∀ (s : Session) (inp : List Byte), errorReply (secureDfuPacket s inp).2.1 = true →
      (secureDfuPacket s inp).1 = s ∧ (secureDfuPacket s inp).2.2 = []) ∧
    (∀ (h : Hooks) (s : Session) (inp : List Byte),
      errorReply (secureDfuControl cfg h s inp).2.1 = true →
      (∀ c ∈ (secureDfuControl cfg h s inp).2.2, c.fails = false) →
      (secureDfuControl cfg h s inp).1 = s ∧ (secureDfuControl cfg h s inp).2.2 = []) ∧
    ∀ (t : Transfer cfg) (es : List LinkEvent) (w : World),
      Reach (linkStep t) (Interrupts cfg) {} es w →
      w.todo ≠ .aborted ∧ writes w.calls <+: t.objects ∧
      (∀ ns, w.todo.left t ≤ ns.length → (proceeds t w ns).todo = .done) ∧
      (w.todo = .done → (writes w.calls).flatten = t.firmware ∧
        ∀ ns, (proceeds t {} ns).todo = .done →
          writes w.calls = writes (proceeds t {} ns).calls) := by
  refine ⟨fun s inp herr => secureDfuPacket_refusal inp herr (secureDfuPacket_works inp),
    fun h s inp => secureDfuControl_refusal inp, fun t es w hrun => ?_⟩
  have hw := resumeInv_reach hrun
  refine ⟨fun haborted => ?_, hw.written.1, fun ns hns => proceeds_finish hw hns, fun hdone => ?_⟩
  · have hok := hw.2
    rw [haborted] at hok
    exact hok
  · refine ⟨by rw [hw.written.2 hdone, objects_flatten], fun ns hns => ?_⟩
    rw [hw.written.2 hdone, (resumeInv_proceeds (resumeInv_init t) ns).written.2 hns]

def sampleTransfer : Transfer samplePlatform where
  command := shortCommand
  image := ⟨8, List.replicate 31 0 ++ [1]⟩
  firmware := [1, 2, 3, 4, 5, 6, 7, 8]
  parsed := by decide +kernel
  size := rfl

/-- The link is lost in the command, in the object and at its end; requests are refused. -/
def sampleLosses : List LinkEvent :=
  [.proceed 0, .proceed 0, .proceed 9, .lost false, .packet [], .proceed 0, .proceed 99,
    .proceed 0, .proceed 0, .control [9], .proceed 0, .proceed 0, .proceed 2, .lost true,
    .proceed 0, .control [2, 1, 0], .proceed 0, .control [3], .proceed 99, .lost false,
    .proceed 0, .proceed 0, .proceed 0, .proceed 0]

theorem secure_dfu_resume_losses : ∃ w,
    Reach (linkStep sampleTransfer) (Interrupts samplePlatform) {} sampleLosses w ∧
      w.todo = .done ∧ (writes w.calls).flatten = [1, 2, 3, 4, 5, 6, 7, 8] := by
  have hrun : Reach (linkStep sampleTransfer) (Interrupts samplePlatform) {} sampleLosses _ :=
    Reach.of_allowed (fun w e => decide (Interrupts samplePlatform w e))
      (fun _ _ h => of_decide_eq_true h) (by decide +kernel)
  have hdone : (sampleLosses.foldl (linkStep sampleTransfer) {}).todo = .done := by decide +kernel
  exact ⟨_, hrun, hdone, ((secure_dfu_resume_exact.2.2 sampleTransfer _ _ hrun).2.2.2 hdone).1⟩

end OtaFix.SecureDfu

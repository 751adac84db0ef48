import OtaFix.Pstorage.Queue

/-!
# What a call does to the queue

`Phase` says what the two flags mean for the two rings, `Shape` adds what holds of the command at
the head. `outstanding` lists the accepted calls in the order in which they are served: those
that wait as commands of their own, then the buffered stores. A call that is taken on joins
behind all of them, and what the SoftDevice began of the head stays begun: that is `Moves`.
-/

namespace OtaFix.Pstorage

open Lib

variable {env : Env} {s s' : State}

/-! ## Calls and commands -/

/-- The command of a call that is not buffered. -/
def Call.cmd : Call → Cmd
  | .store dest src data offset => ⟨.store, .none, data.length, offset, dest, .ram src data⟩
  | .clear dest size => ⟨.clear, .none, size, 0, dest, .ram 0 []⟩

def Call.size : Call → Nat
  | .store _ _ data _ => data.length
  | .clear _ size => size

def Pending.call (p : Pending) : Call := .store p.handle p.dataOrig p.data p.offset

/-- The command of the buffered store in slot `i`. -/
def Pending.cmd (p : Pending) (i : Nat) : Cmd :=
  ⟨.store, .pendingStore, p.size, p.offset, p.handle, .slot i⟩

def eraseCmd (h : Handle) : Cmd := ⟨.clear, .lazyErase, codePageSize, 0, h, .ram 0 []⟩

/-- What round `r` of a request asks of the SoftDevice. -/
def Call.op : Call → Nat → FlashOp
  | .store dest _ data offset, r =>
    let done := r * socMaxWriteSize % 2 ^ 32
    let left := sub32 data.length done
    .write (add32 dest.blockId (add32 offset done)) ((data.drop done).take
      (4 * ((if left < socMaxWriteSize then left else socMaxWriteSize) / 4)))
  | .clear dest _, r => .erase (add32 (dest.blockId / codePageSize) r)

/-- `r` rounds are as many as a request of `size` bytes takes. -/
def Covers (size r : Nat) : Prop := size ≤ r * socMaxWriteSize % 2 ^ 32

/-- The rounds of a request are over as soon as they cover its size. -/
def Whole (size r : Nat) : Prop := 0 < r ∧ Covers size r ∧ ∀ k, 0 < k → k < r → ¬ Covers size k

theorem Call.notice_cmd (c : Call) : c.cmd.notice = c.notice := by cases c <;> rfl

theorem Call.flag_cmd (c : Call) : c.cmd.flag = .none := by cases c <;> rfl

theorem Call.size_cmd (c : Call) : c.cmd.size = c.size := by cases c <;> rfl

theorem Call.opCode_cmd (c : Call) : c.cmd.opCode ≠ .invalid := by cases c <;> simp [Call.cmd]

/-- What the SoftDevice is asked for round `r` of a command. -/
def opOf (s : State) (cmd : Cmd) (r : Nat) : FlashOp :=
  match cmd.opCode with
  | .clear => .erase (add32 (cmd.storageAddr.blockId / codePageSize) r)
  | _ =>
    let done := r * socMaxWriteSize % 2 ^ 32
    let left := sub32 cmd.size done
    .write (add32 cmd.storageAddr.blockId (add32 cmd.offset done))
      (((sourceBytes s cmd.dataAddr).drop done).take
        (4 * ((if left < socMaxWriteSize then left else socMaxWriteSize) / 4)))

theorem Call.opOf_cmd (c : Call) (r : Nat) : opOf s c.cmd r = c.op r := by cases c <;> rfl

theorem Pending.opOf_cmd {p : Pending} {i : Nat} (h : s.pending.slots i = p)
    (hsize : p.size = p.data.length) (r : Nat) : opOf s (p.cmd i) r = p.call.op r := by
  subst h
  simp only [opOf, Pending.cmd, Call.op, Pending.call, sourceBytes, hsize]

theorem opOf_frame (h : s'.pending = s.pending) (cmd : Cmd) (r : Nat) :
    opOf s' cmd r = opOf s cmd r := by
  simp only [opOf, sourceBytes, h]

/-! ## The SoftDevice at work -/

def accessAfter (answer : Code) : FlashAccess :=
  if answer = nrfErrorBusy then .waitBusy
  else if answer ≠ nrfSuccess then .idle
  else .inFlight

/-- The state once the head of the queue was put to the SoftDevice. -/
def asked (env : Env) (cmd : Cmd) (s : State) : State :=
  { s with
    issued := s.issued ++ [⟨opOf s cmd s.roundVal, cmd.flag, env.sd s.issued.length, s.dfu⟩]
    flashAccess := accessAfter (env.sd s.issued.length) }

theorem cmdProcess_eq (h : 0 < s.queue.count) (hop : s.queue.front.opCode ≠ .invalid) :
    cmdProcess env s = (env.sd s.issued.length, asked env s.queue.front s) := by
  unfold cmdProcess
  rw [if_neg (by omega)]
  cases hc : s.queue.front.opCode with
  | invalid => exact absurd hc hop
  | store => simp only [hc, sdFlash, asked, opOf, accessAfter, sourceBytes]
  | clear => simp only [hc, sdFlash, asked, opOf, accessAfter]

/-- The operations that the SoftDevice started for requests. -/
def started (s : State) : List FlashOp :=
  (s.issued.filter fun i => i.answer = nrfSuccess && i.flag ≠ .lazyErase).map Issue.op

theorem started_asked (cmd : Cmd) : started (asked env cmd s) = started s ++
    if env.sd s.issued.length = nrfSuccess ∧ cmd.flag ≠ .lazyErase
    then [opOf s cmd s.roundVal] else [] := by
  simp only [started, asked, List.filter_append, List.map_append, List.filter_cons, List.filter_nil]
  by_cases h1 : env.sd s.issued.length = nrfSuccess <;> by_cases h2 : cmd.flag = .lazyErase <;>
    simp [h1, h2]

/-- The parts of the state that the queue and the SoftDevice leave alone. -/
structure Frame (s s' : State) : Prop where
  pending : s'.pending = s.pending
  lazy : s'.lazyEraseActive = s.lazyEraseActive
  processing : s'.processingPending = s.processingPending
  answers : s'.answers = s.answers
  notified : s'.notified = s.notified
  dfu : s'.dfu = s.dfu
  page : s'.lazyErasePage = s.lazyErasePage

/-- The rounds begun of the request at the head. -/
def inProgress (s : State) : Nat := s.roundVal + if s.flashAccess = .inFlight then 1 else 0

/-- Nothing waits at the SoftDevice for an empty queue. -/
def IdleWhenEmpty (s : State) : Prop := s.queue.count = 0 → s.flashAccess = .idle ∧ s.roundVal = 0

/-- What an attempt to queue a command can do. -/
inductive Enqueued (cmd : Cmd) (s : State) : Code → State → Prop where
  | refused {ret : Code} {s' : State} : ret ≠ nrfSuccess → Frame s s' →
      s'.queue.toList = s.queue.toList → s'.flashAccess = s.flashAccess →
      s'.roundVal = s.roundVal → started s' = started s → Enqueued cmd s ret s'
  | behind {s' : State} : s.queue.count ≠ 0 → Frame s s' →
      s'.queue.toList = s.queue.toList ++ [cmd] → s'.flashAccess = s.flashAccess →
      s'.roundVal = s.roundVal → started s' = started s → Enqueued cmd s nrfSuccess s'
  | first {s' : State} : s.queue.count = 0 → Frame s s' → s'.queue.toList = [cmd] →
      s'.flashAccess ≠ .idle → s'.roundVal = 0 →
      started s' = started s ++ (if cmd.flag = .lazyErase then []
        else (List.range (inProgress s')).map (opOf s cmd)) → Enqueued cmd s nrfSuccess s'

theorem access_asked (cmd : Cmd) :
    (asked env cmd s).flashAccess = accessAfter (env.sd s.issued.length) := rfl

theorem accessAfter_busy : accessAfter nrfErrorBusy = .waitBusy := rfl

theorem accessAfter_success : accessAfter nrfSuccess = .inFlight := by decide

theorem accessAfter_refused {answer : Code} (hok : answer ≠ nrfSuccess)
    (hbusy : answer ≠ nrfErrorBusy) : accessAfter answer = .idle := by
  rw [accessAfter, if_neg hbusy, if_pos hok]

theorem accessAfter_inFlight {answer : Code} :
    accessAfter answer = .inFlight ↔ answer = nrfSuccess := by
  refine ⟨fun h => ?_, fun h => h ▸ accessAfter_success⟩
  unfold accessAfter at h
  split at h
  · cases h
  · split at h
    · cases h
    · rename_i _ hok
      exact not_not.mp hok

theorem inProgress_asked (cmd : Cmd) : inProgress (asked env cmd s) =
    s.roundVal + if env.sd s.issued.length = nrfSuccess then 1 else 0 := by
  simp only [inProgress, access_asked, accessAfter_inFlight]
  rfl

theorem frame_asked (cmd : Cmd) : Frame s (asked env cmd s) :=
  ⟨rfl, rfl, rfl, rfl, rfl, rfl, rfl⟩

theorem frame_pushCmd (cmd : Cmd) : Frame s (s.pushCmd cmd) :=
  ⟨rfl, rfl, rfl, rfl, rfl, rfl, rfl⟩

theorem frame_dropCmd : Frame s s.dropCmd := ⟨rfl, rfl, rfl, rfl, rfl, rfl, rfl⟩

theorem Frame.refl (s : State) : Frame s s := ⟨rfl, rfl, rfl, rfl, rfl, rfl, rfl⟩

theorem Frame.trans {s'' : State} (h : Frame s s') (h' : Frame s' s'') : Frame s s'' :=
  ⟨h'.pending.trans h.pending, h'.lazy.trans h.lazy, h'.processing.trans h.processing,
    h'.answers.trans h.answers, h'.notified.trans h.notified,
    h'.dfu.trans h.dfu, h'.page.trans h.page⟩

/-- The first command of an idle queue goes to the SoftDevice at once. -/
theorem cmdQueueEnqueue_first {cmd : Cmd} (hop : cmd.opCode ≠ .invalid)
    (hempty : s.queue.count = 0) (hidle : s.flashAccess = .idle) :
    cmdQueueEnqueue env cmd s =
      if env.sd s.issued.length = nrfErrorBusy then (nrfSuccess, asked env cmd (s.pushCmd cmd))
      else if env.sd s.issued.length ≠ nrfSuccess then
        (env.sd s.issued.length, (asked env cmd (s.pushCmd cmd)).dropCmd)
      else (env.sd s.issued.length, asked env cmd (s.pushCmd cmd)) := by
  have hlt : s.queue.count < 18 := by omega
  have hcount : (s.pushCmd cmd).queue.count = 1 := by
    rw [State.pushCmd, Ring.count_push hlt, hempty]
  have hfront : (s.pushCmd cmd).queue.front = cmd := by
    have h := Ring.toList_eq_front_cons (r := (s.pushCmd cmd).queue) (by omega)
    rw [State.pushCmd, Ring.toList_push hlt, Ring.toList_eq_nil.mpr hempty] at h
    exact (List.cons.inj h).1.symm
  unfold cmdQueueEnqueue
  rw [if_pos (by simp only [pstorageCmdQueueSize]; omega), if_pos ⟨hempty, hidle⟩,
    cmdProcess_eq (by omega) (by rw [hfront]; exact hop), hfront]
  rfl

theorem started_pushCmd (cmd : Cmd) : started (s.pushCmd cmd) = started s := rfl

theorem started_dropCmd : started s.dropCmd = started s := rfl

theorem enqueued (hb : IdleWhenEmpty s) {cmd : Cmd} (hop : cmd.opCode ≠ .invalid) :
    Enqueued cmd s (cmdQueueEnqueue env cmd s).1 (cmdQueueEnqueue env cmd s).2 := by
  have hle := s.queue.count_le
  by_cases hempty : s.queue.count = 0
  · obtain ⟨hidle, hround⟩ := hb hempty
    have hlt : s.queue.count < 18 := by omega
    have hframe : Frame s (asked env cmd (s.pushCmd cmd)) :=
      (frame_pushCmd cmd).trans (frame_asked cmd)
    have hqueue : (asked env cmd (s.pushCmd cmd)).queue.toList = [cmd] := by
      change (s.queue.push cmd).toList = [cmd]
      rw [Ring.toList_push hlt, Ring.toList_eq_nil.mpr hempty]
      rfl
    have hstart : started (asked env cmd (s.pushCmd cmd)) = started s ++
        if env.sd s.issued.length = nrfSuccess ∧ cmd.flag ≠ .lazyErase
        then [opOf s cmd 0] else [] := by
      rw [started_asked, started_pushCmd, opOf_frame (s := s) rfl]
      change _ ++ ite _ [opOf s cmd s.roundVal] _ = _
      rw [hround]
      rfl
    have hprogress : inProgress (asked env cmd (s.pushCmd cmd)) =
        if env.sd s.issued.length = nrfSuccess then 1 else 0 := by
      rw [inProgress_asked]
      change s.roundVal + _ = _
      rw [hround, Nat.zero_add]
      rfl
    rw [cmdQueueEnqueue_first hop hempty hidle]
    split
    · rename_i hbusy
      have hno : env.sd s.issued.length ≠ nrfSuccess := fun h => by
        rw [hbusy] at h
        exact absurd h (by decide)
      refine .first hempty hframe hqueue ?_ hround ?_
      · rw [access_asked]
        change accessAfter (env.sd s.issued.length) ≠ _
        rw [hbusy, accessAfter_busy]
        exact fun h => by cases h
      · rw [hstart, hprogress, if_neg (fun h => hno h.1), if_neg hno]
        split <;> rfl
    split
    · rename_i hbusy hok
      refine .refused hok (hframe.trans frame_dropCmd) ?_ ?_ hround.symm ?_
      · exact Ring.toList_dropBack_push hlt cmd .init
      · exact (accessAfter_refused hok hbusy).trans hidle.symm
      · rw [started_dropCmd, hstart, if_neg (fun h => hok h.1), List.append_nil]
    · rename_i hbusy hok
      have hok : env.sd s.issued.length = nrfSuccess := not_not.mp hok
      rw [hok]
      refine .first hempty hframe hqueue ?_ hround ?_
      · rw [access_asked]
        change accessAfter (env.sd s.issued.length) ≠ _
        rw [hok, accessAfter_success]
        exact fun h => by cases h
      · rw [hstart, hprogress, if_pos hok]
        by_cases hlazy : cmd.flag = .lazyErase
        · rw [if_pos hlazy, if_neg (fun h => h.2 hlazy)]
        · rw [if_neg hlazy, if_pos ⟨hok, hlazy⟩]
          rfl
  · unfold cmdQueueEnqueue
    by_cases hfull : s.queue.count = pstorageCmdQueueSize
    · rw [if_neg (not_not_intro hfull)]
      exact .refused (Nat.succ_ne_zero 3) (.refl s) rfl rfl rfl rfl
    · rw [if_pos hfull, if_neg (fun h => hempty h.1)]
      have hlt : s.queue.count < 18 := by simp only [pstorageCmdQueueSize] at hfull; omega
      exact .behind hempty (frame_pushCmd cmd) (Ring.toList_push hlt cmd) rfl rfl rfl

/-! ## The invariant -/

/-- A request that is over, and the rounds of it that the SoftDevice began. -/
structure Settled where
  call : Call
  result : Code
  rounds : Nat

def Settled.ops (d : Settled) : List FlashOp := (List.range d.rounds).map d.call.op

/-- What the flags say about the two rings; `direct` are the calls that wait as commands of
their own. -/
inductive Phase (s : State) : List Call → Prop where
  | plain {direct : List Call} : s.lazyEraseActive = false → s.processingPending = false →
      s.queue.toList = direct.map Call.cmd → (direct = [] ∨ s.pending.count = 0) → Phase s direct
  | erasing {direct : List Call} {h : Handle} : s.lazyEraseActive = true →
      s.processingPending = false → s.queue.toList = direct.map Call.cmd ++ [eraseCmd h] →
      Phase s direct
  | storing : s.lazyEraseActive = false → s.processingPending = true → 0 < s.pending.count →
      s.queue.toList = [s.pending.front.cmd s.pending.head] → Phase s []

structure Shape (s : State) (direct : List Call) : Prop where
  phase : Phase s direct
  sized : ∀ p ∈ s.pending.toList, p.size = p.data.length
  empty : IdleWhenEmpty s
  /-- The head is not complete. -/
  rounds : ∀ k, 0 < k → k ≤ s.roundVal → ¬ Covers s.queue.front.size k

/-- The accepted calls that are not settled. -/
def outstanding (s : State) (direct : List Call) : List Call :=
  direct ++ s.pending.toList.map Pending.call

/-- The first `n` rounds of the request at the head; a lazy erase serves no request. -/
def begun (s : State) (n : Nat) : List Call → List FlashOp
  | c :: _ => (List.range n).map c.op
  | [] => if s.processingPending then (List.range n).map s.pending.front.call.op else []

def accepted (s : State) : List Call := (s.answers.filter (·.2 = nrfSuccess)).map Prod.fst

/-- The callbacks that settle `done`. -/
def callbacks (modules : Nat) (done : List Settled) : List (Notice × Code) :=
  (done.filter fun d => d.call.notice.hasCallback modules).map fun d => (d.call.notice, d.result)

/-- The settled requests account for the accepted calls, the callbacks and the SoftDevice. -/
structure Ledger (env : Env) (s : State) (n : Nat) (direct : List Call) (told done : List Settled)
    (calls : List Call) : Prop where
  sound : ∀ d ∈ done, d.result = nrfSuccess → Whole d.call.size d.rounds
  served : calls = done.map Settled.call ++ outstanding s direct
  told : s.notified = callbacks env.modules told
  starts : started s = (done.map Settled.ops).flatten ++ begun s n direct

/-- A command that waits has a request at the SoftDevice in front of it. -/
def Awake (s : State) : Prop := s.queue.count ≠ 0 → s.flashAccess ≠ .idle

/-- Buffered stores wait behind a command. -/
def Fed (s : State) : Prop := s.pending.count ≠ 0 → s.queue.count ≠ 0

/-- What the queue does without settling a request: `new` are the calls it took on. -/
structure Moves (s : State) (direct : List Call) (s' : State) (direct' new : List Call) :
    Prop where
  shape : Shape s' direct'
  owes : outstanding s' direct' = outstanding s direct ++ new
  starts : ∃ ops, started s' = started s ++ ops ∧
    begun s' (inProgress s') direct' = begun s (inProgress s) direct ++ ops
  answers : s'.answers = s.answers
  notified : s'.notified = s.notified
  awake : Awake s → Awake s'
  fed : Fed s → Fed s'

theorem Ledger.moves {direct direct' new : List Call} {told done : List Settled}
    {calls : List Call} (h : Ledger env s (inProgress s) direct told done calls)
    (hm : Moves s direct s' direct' new) :
    Ledger env s' (inProgress s') direct' told done (calls ++ new) := by
  obtain ⟨ops, hstart, hbegun⟩ := hm.starts
  refine ⟨h.sound, ?_, ?_, ?_⟩
  · rw [h.served, hm.owes, List.append_assoc]
  · rw [hm.notified, h.told]
  · rw [hstart, h.starts, hbegun, List.append_assoc]

theorem Ledger.moves_nil {direct direct' : List Call} {told done : List Settled}
    (h : Ledger env s (inProgress s) direct told done (Pstorage.accepted s))
    (hm : Moves s direct s' direct' []) :
    Ledger env s' (inProgress s') direct' told done (Pstorage.accepted s') := by
  have h' := h.moves hm
  rw [List.append_nil] at h'
  rw [Pstorage.accepted, hm.answers]
  exact h'

theorem Moves.refl {direct : List Call} (h : Shape s direct) : Moves s direct s direct [] :=
  ⟨h, (List.append_nil _).symm, ⟨[], (List.append_nil _).symm, (List.append_nil _).symm⟩,
    rfl, rfl, id, id⟩

theorem Moves.trans {s'' : State} {direct direct' direct'' new new' : List Call}
    (h : Moves s direct s' direct' new) (h' : Moves s' direct' s'' direct'' new') :
    Moves s direct s'' direct'' (new ++ new') := by
  obtain ⟨ops, hstart, hbegun⟩ := h.starts
  obtain ⟨ops', hstart', hbegun'⟩ := h'.starts
  refine ⟨h'.shape, ?_, ⟨ops ++ ops', ?_, ?_⟩, 
    h'.answers.trans h.answers, h'.notified.trans h.notified, fun ha => h'.awake (h.awake ha),
    fun hf => h'.fed (h.fed hf)⟩
  · rw [h'.owes, h.owes, List.append_assoc]
  · rw [hstart', hstart, List.append_assoc]
  · rw [hbegun', hbegun, List.append_assoc]

/-! ## Taking calls on -/

section Append

variable {direct : List Call} {l : List Cmd}

theorem Shape.rounds_append (h : Shape s direct) (hq : s'.queue.toList = s.queue.toList ++ l)
    (hr : s'.roundVal = s.roundVal) :
    ∀ k, 0 < k → k ≤ s'.roundVal → ¬ Covers s'.queue.front.size k := by
  intro k hk hle
  rw [hr] at hle
  by_cases hc : s.queue.count = 0
  · have := (h.empty hc).2
    omega
  · have hfront : s'.queue.front = s.queue.front := by
      refine Ring.front_eq (l := s.queue.pop.toList ++ l) ?_
      rw [hq, Ring.toList_eq_front_cons (Nat.pos_of_ne_zero hc)]
      rfl
    rw [hfront]
    exact h.rounds k hk hle

theorem Shape.empty_append (h : Shape s direct) (hq : s'.queue.toList = s.queue.toList ++ l)
    (ha : s'.flashAccess = s.flashAccess) (hr : s'.roundVal = s.roundVal) : IdleWhenEmpty s' := by
  intro hc
  rw [← Ring.toList_eq_nil, hq, List.append_eq_nil_iff, Ring.toList_eq_nil] at hc
  rw [ha, hr]
  exact h.empty hc.1

end Append

theorem Phase.plain_iff {direct : List Call} (h : Phase s direct)
    (hlazy : s.lazyEraseActive = false) (hproc : s.processingPending = false) :
    s.queue.toList = direct.map Call.cmd ∧ (direct = [] ∨ s.pending.count = 0) := by
  cases h with
  | plain _ _ hq hd => exact ⟨hq, hd⟩
  | erasing hl => rw [hlazy] at hl; cases hl
  | storing _ hp => rw [hproc] at hp; cases hp

theorem begun_cons (c : Call) (n : Nat) (rest : List Call) :
    begun s n (c :: rest) = (List.range n).map c.op := rfl

theorem begun_nil (hproc : s.processingPending = false) (n : Nat) : begun s n [] = [] := by
  rw [begun, hproc]
  rfl

/-- The head and its rounds stay when commands join behind it. -/
theorem begun_append {direct : List Call} (hproc : s.processingPending = s'.processingPending)
    (hpend : s.pending.front = s'.pending.front) (hin : inProgress s' = inProgress s)
    (l : List Call) (hl : direct ≠ [] ∨ l = []) :
    begun s' (inProgress s') (direct ++ l) = begun s (inProgress s) direct := by
  rw [hin]
  cases direct with
  | nil =>
    obtain hl | hl := hl
    · exact absurd rfl hl
    · rw [hl, List.append_nil, begun, begun, hproc, hpend]
  | cons c rest => rfl

theorem inProgress_eq (ha : s'.flashAccess = s.flashAccess) (hr : s'.roundVal = s.roundVal) :
    inProgress s' = inProgress s := by
  rw [inProgress, inProgress, ha, hr]

theorem Enqueued.frame {cmd : Cmd} {ret : Code} (h : Enqueued cmd s ret s') : Frame s s' := by
  cases h with
  | refused _ hf => exact hf
  | behind _ hf => exact hf
  | first _ hf => exact hf

theorem count_ne_zero_of_toList {l : List Cmd} {cmd : Cmd} (h : s.queue.toList = l ++ [cmd]) :
    s.queue.count ≠ 0 := by
  rw [← Ring.toList_length, h, List.length_append]
  exact Nat.succ_ne_zero _

theorem Enqueued.awake {cmd : Cmd} {ret : Code} (h : Enqueued cmd s ret s') (ha : Awake s) :
    Awake s' := by
  intro hc
  cases h with
  | refused _ _ hq hacc =>
    rw [← Ring.toList_length, hq, Ring.toList_length] at hc
    rw [hacc]
    exact ha hc
  | behind hc' _ _ hacc =>
    rw [hacc]
    exact ha hc'
  | first _ _ _ hacc => exact hacc

theorem Enqueued.fed {cmd : Cmd} {ret : Code} (h : Enqueued cmd s ret s') (hf : Fed s) :
    Fed s' := by
  intro hp
  cases h with
  | refused _ hfr hq =>
    rw [hfr.pending] at hp
    rw [← Ring.toList_length, hq, Ring.toList_length]
    exact hf hp
  | behind _ _ hq => exact count_ne_zero_of_toList hq
  | first _ _ hq => exact count_ne_zero_of_toList (l := []) hq

theorem Moves.ofDirect {c : Call} {direct : List Call} {ret : Code} (h : Shape s direct)
    (hlazy : s.lazyEraseActive = false) (hproc : s.processingPending = false)
    (hpend : s.pending.count = 0) (he : Enqueued c.cmd s ret s') :
    ∃ direct', Moves s direct s' direct' (if ret = nrfSuccess then [c] else []) := by
  obtain ⟨hq, -⟩ := h.phase.plain_iff hlazy hproc
  have hawake := he.awake
  have hfed := he.fed
  cases he with
  | refused hret hf hq' ha hr hst =>
    have hq'' : s'.queue.toList = s.queue.toList ++ [] := by rw [hq', List.append_nil]
    rw [if_neg hret]
    refine ⟨direct, ⟨.plain (hf.lazy.trans hlazy) (hf.processing.trans hproc) (hq'.trans hq)
      (.inr (hf.pending ▸ hpend)), hf.pending ▸ h.sized, h.empty_append hq'' ha hr,
      h.rounds_append hq'' hr⟩, ?_, ⟨[], ?_, ?_⟩, hf.answers, hf.notified, hawake, hfed⟩
    · rw [outstanding, outstanding, hf.pending, List.append_nil]
    · rw [hst, List.append_nil]
    · rw [List.append_nil, ← begun_append hf.processing.symm (congrArg Ring.front hf.pending.symm)
        (inProgress_eq ha hr) [] (.inr rfl), List.append_nil]
  | behind hc hf hq' ha hr hst =>
    have hne : direct ≠ [] := fun hd => by
      rw [hd] at hq
      exact hc (Ring.toList_eq_nil.mp hq)
    have hp : s.pending.toList = [] := Ring.toList_eq_nil.mpr hpend
    rw [if_pos rfl]
    refine ⟨direct ++ [c], ⟨.plain (hf.lazy.trans hlazy) (hf.processing.trans hproc) ?_
      (.inr (hf.pending ▸ hpend)), hf.pending ▸ h.sized, h.empty_append hq' ha hr,
      h.rounds_append hq' hr⟩, ?_, ⟨[], ?_, ?_⟩, hf.answers, hf.notified, hawake, hfed⟩
    · rw [hq', hq, List.map_append]; rfl
    · rw [outstanding, outstanding, hf.pending, hp, List.map_nil, List.append_nil, List.append_nil]
    · rw [hst, List.append_nil]
    · rw [List.append_nil, begun_append hf.processing.symm (congrArg Ring.front hf.pending.symm)
        (inProgress_eq ha hr) [c] (.inl hne)]
  | first hc hf hq' ha hr hst =>
    have hd : direct = [] := by
      rw [Ring.toList_eq_nil.mpr hc] at hq
      exact List.map_eq_nil_iff.mp hq.symm
    have hp : s.pending.toList = [] := Ring.toList_eq_nil.mpr hpend
    subst hd
    rw [if_pos rfl]
    refine ⟨[c], ⟨.plain (hf.lazy.trans hlazy) (hf.processing.trans hproc) hq'
      (.inr (hf.pending ▸ hpend)), hf.pending ▸ h.sized, fun h0 => ?_, fun k hk hle => ?_⟩, ?_,
      ⟨(List.range (inProgress s')).map c.op, ?_, ?_⟩, hf.answers, hf.notified, hawake, hfed⟩
    · rw [Ring.toList_eq_nil.mpr h0] at hq'
      cases hq'
    · omega
    · rw [outstanding, outstanding, hf.pending, hp]; rfl
    · rw [hst, if_neg (by rw [c.flag_cmd]; exact fun h => by cases h)]
      exact congrArg (started s ++ ·) (List.map_congr_left fun r _ => c.opOf_cmd r)
    · rw [begun_nil hproc]; rfl

/-- What an erase that a store waits for does to the queue. -/
theorem Moves.ofErase {h : Handle} {page : Nat} {direct : List Call} {ret : Code}
    (hs : Shape s direct) (hlazy : s.lazyEraseActive = false) (hproc : s.processingPending = false)
    (he : Enqueued (eraseCmd h) { s with lazyEraseActive := true, lazyErasePage := page } ret s') :
    (ret = nrfSuccess → Moves s direct s' direct []) ∧
      (ret ≠ nrfSuccess → Moves s direct { s' with lazyEraseActive := false } direct []) := by
  obtain ⟨hq, hd⟩ := hs.phase.plain_iff hlazy hproc
  have hawake := he.awake
  have hfed := he.fed
  cases he with
  | refused hret hf hq' ha hr hst =>
    have hq'' : s'.queue.toList = s.queue.toList ++ [] := by rw [List.append_nil]; exact hq'
    have hpend : s'.pending = s.pending := hf.pending
    refine ⟨fun h => absurd h hret, fun _ => ⟨⟨.plain rfl (hf.processing.trans hproc) (hq'.trans hq)
      (hpend ▸ hd), hpend ▸ hs.sized, hs.empty_append hq'' ha hr, hs.rounds_append hq'' hr⟩, ?_,
      ⟨[], ?_, ?_⟩, hf.answers, hf.notified, hawake, hfed⟩⟩
    · rw [outstanding, outstanding, List.append_nil]
      exact congrArg (fun r => direct ++ (Ring.toList r).map Pending.call) hpend
    · rw [List.append_nil]; exact hst
    · rw [List.append_nil, ← @begun_append s { s' with lazyEraseActive := false } _
        hf.processing.symm (congrArg Ring.front hpend.symm) (inProgress_eq ha hr) [] (.inr rfl),
        List.append_nil]
  | behind hc hf hq' ha hr hst =>
    refine ⟨fun _ => ⟨⟨.erasing (h := h) hf.lazy (hf.processing.trans hproc) ?_,
      hf.pending ▸ hs.sized, hs.empty_append hq' ha hr, hs.rounds_append hq' hr⟩, ?_,
      ⟨[], ?_, ?_⟩, hf.answers, hf.notified, hawake, hfed⟩, fun h => absurd rfl h⟩
    · exact hq'.trans (congrArg (· ++ _) hq)
    · rw [outstanding, outstanding, hf.pending, List.append_nil]
    · rw [List.append_nil]; exact hst
    · rw [List.append_nil, ← @begun_append s s' _ hf.processing.symm
        (congrArg Ring.front hf.pending.symm) (inProgress_eq ha hr) [] (.inr rfl), List.append_nil]
  | first hc hf hq' ha hr hst =>
    have hnil : direct = [] := by
      rw [Ring.toList_eq_nil.mpr hc] at hq
      exact List.map_eq_nil_iff.mp hq.symm
    subst hnil
    refine ⟨fun _ => ⟨⟨.erasing hf.lazy (hf.processing.trans hproc) hq', hf.pending ▸ hs.sized,
      fun h0 => ?_, fun k hk hle => ?_⟩, ?_, ⟨[], ?_, ?_⟩, hf.answers, hf.notified, hawake, hfed⟩,
      fun h => absurd rfl h⟩
    · rw [Ring.toList_eq_nil.mpr h0] at hq'
      cases hq'
    · omega
    · rw [outstanding, outstanding, hf.pending, List.append_nil]
    · exact hst
    · rw [begun_nil (hf.processing.trans hproc), begun_nil hproc]
      rfl

theorem lazyErase_moves {handle : Handle} {size offset : Nat} {direct : List Call}
    (hs : Shape s direct) (hlazy : s.lazyEraseActive = false)
    (hproc : s.processingPending = false) :
    Moves s direct (lazyEraseCheckAndTrigger env handle size offset s).2 direct [] := by
  unfold lazyEraseCheckAndTrigger
  split
  · exact .refl hs
  · rename_i page _
    have he := @enqueued env { s with lazyEraseActive := true, lazyErasePage := page } hs.empty
      (eraseCmd ⟨handle.moduleId, add32 s.dfu.baseAddress (page * codePageSize % 2 ^ 32)⟩)
      (fun h => by cases h)
    obtain ⟨hok, hno⟩ := Moves.ofErase hs hlazy hproc he
    dsimp only
    split
    · exact hno (by assumption)
    · exact hok (not_not.mp (by assumption))

theorem Moves.ofPush {p : Pending} {direct : List Call} (hs : Shape s direct)
    (hwait : s.lazyEraseActive ∨ s.processingPending ∨ 0 < s.pending.count)
    (hlt : s.pending.count < 8) (hsize : p.size = p.data.length) :
    Moves s direct (s.pushPending p) direct [p.call] := by
  have hpush : (s.pushPending p).pending.toList = s.pending.toList ++ [p] := Ring.toList_push hlt p
  have hfront : 0 < s.pending.count → (s.pushPending p).pending.front = s.pending.front :=
    fun hpos => Ring.front_push hpos p
  have hhead : (s.pushPending p).pending.head = s.pending.head := Ring.head_push _ _
  refine ⟨⟨?_, ?_, hs.empty, hs.rounds⟩, ?_, ⟨[], (List.append_nil _).symm, ?_⟩, rfl, rfl,
    id, ?_⟩
  · cases hs.phase with
    | plain hl hp hq hd =>
      have hpos : 0 < s.pending.count := by
        rw [hl, hp] at hwait
        simpa using hwait
      exact .plain hl hp hq (.inl (hd.resolve_right (by omega)))
    | erasing hl hp hq => exact .erasing hl hp hq
    | storing hl hp hpos hq =>
      refine .storing hl hp ?_ ?_
      · rw [← Ring.toList_length, hpush, List.length_append]
        exact Nat.succ_pos _
      · rw [hfront hpos, hhead]
        exact hq
  · intro x hx
    rw [hpush, List.mem_append, List.mem_singleton] at hx
    obtain hx | rfl := hx
    · exact hs.sized x hx
    · exact hsize
  · rw [outstanding, outstanding, hpush, List.map_append, List.append_assoc]
    rfl
  · rw [List.append_nil]
    cases direct with
    | cons c rest => rfl
    | nil =>
      cases hs.phase with
      | plain _ hproc =>
        rw [begun_nil hproc]
        exact begun_nil (s := s.pushPending p) hproc _
      | erasing _ hproc =>
        rw [begun_nil hproc]
        exact begun_nil (s := s.pushPending p) hproc _
      | storing _ hproc hpos =>
        rw [begun, begun, hfront hpos]
        rfl
  · intro hf _
    rw [show (s.pushPending p).queue = s.queue from rfl]
    cases hs.phase with
    | plain hl hp hq hd =>
      have hpos : 0 < s.pending.count := by
        rw [hl, hp] at hwait
        simpa using hwait
      exact hf (by omega)
    | erasing _ _ hq => exact count_ne_zero_of_toList hq
    | storing _ _ _ hq => exact count_ne_zero_of_toList (l := []) hq

theorem Moves.ofBuffer {dest : Handle} {src offset : Nat} {data : List Byte} {direct : List Call}
    (hs : Shape s direct) (hwait : s.lazyEraseActive ∨ s.processingPending ∨ 0 < s.pending.count) :
    Moves s direct (pendingPacketAdd dest src data offset s).2 direct
      (if (pendingPacketAdd dest src data offset s).1 then [.store dest src data offset] else []) := by
  unfold pendingPacketAdd
  split
  · exact .refl hs
  · rename_i hroom
    have hlt : s.pending.count < 8 := by simp only [pendingPacketCount] at hroom; omega
    exact .ofPush hs hwait hlt rfl

/-- The store of the first buffered packet. -/
theorem Moves.ofPending {ret : Code} (hs : Shape s []) (hlazy : s.lazyEraseActive = false)
    (hproc : s.processingPending = false) (hpos : 0 < s.pending.count)
    (he : Enqueued (s.pending.front.cmd s.pending.head) { s with processingPending := true }
      ret s') :
    (ret = nrfSuccess → Moves s [] s' [] []) ∧
      (ret ≠ nrfSuccess → Moves s [] { s' with processingPending := false } [] []) := by
  obtain ⟨hq, -⟩ := hs.phase.plain_iff hlazy hproc
  have hc0 : s.queue.count = 0 := Ring.toList_eq_nil.mp hq
  have hawake := he.awake
  have hfed := he.fed
  cases he with
  | refused hret hf hq' ha hr hst =>
    have hq'' : s'.queue.toList = s.queue.toList ++ [] := by rw [List.append_nil]; exact hq'
    have hpend : s'.pending = s.pending := hf.pending
    refine ⟨fun h => absurd h hret, fun _ => ⟨⟨.plain (hf.lazy.trans hlazy) rfl (hq'.trans hq)
      (.inl rfl), hpend ▸ hs.sized, hs.empty_append hq'' ha hr, hs.rounds_append hq'' hr⟩, ?_,
      ⟨[], ?_, ?_⟩, hf.answers, hf.notified, hawake, hfed⟩⟩
    · rw [outstanding, outstanding, List.append_nil]
      exact congrArg (fun r => [] ++ (Ring.toList r).map Pending.call) hpend
    · rw [List.append_nil]; exact hst
    · rw [begun_nil rfl, begun_nil hproc]
      rfl
  | behind hc => exact absurd hc0 hc
  | first hc hf hq' ha hr hst =>
    have hpend : s'.pending = s.pending := hf.pending
    have hmem : s.pending.front ∈ s.pending.toList := by
      rw [Ring.toList_eq_front_cons hpos]
      exact List.mem_cons_self
    refine ⟨fun _ => ⟨⟨.storing (hf.lazy.trans hlazy) hf.processing (hpend ▸ hpos) ?_,
      hpend ▸ hs.sized, fun h0 => ?_, fun k hk hle => ?_⟩, ?_, ⟨(List.range (inProgress s')).map
      s.pending.front.call.op, ?_, ?_⟩, hf.answers, hf.notified, hawake, hfed⟩,
      fun h => absurd rfl h⟩
    · rw [hpend]; exact hq'
    · rw [Ring.toList_eq_nil.mpr h0] at hq'
      cases hq'
    · omega
    · rw [outstanding, outstanding, hpend, List.append_nil]
    · rw [hst, if_neg (fun h => by cases h)]
      exact congrArg (started s ++ ·) (List.map_congr_left fun r _ =>
        Pending.opOf_cmd rfl (hs.sized _ hmem) r)
    · rw [begun_nil hproc, begun, if_pos hf.processing, hpend]
      rfl

theorem lazyErase_keeps (handle : Handle) (size offset : Nat) (hb : IdleWhenEmpty s) :
    (lazyEraseCheckAndTrigger env handle size offset s).2.pending = s.pending ∧
      (lazyEraseCheckAndTrigger env handle size offset s).2.processingPending =
        s.processingPending := by
  unfold lazyEraseCheckAndTrigger
  split
  · exact ⟨rfl, rfl⟩
  · rename_i page _
    have hf := (@enqueued env { s with lazyEraseActive := true, lazyErasePage := page } hb
      (eraseCmd ⟨handle.moduleId, add32 s.dfu.baseAddress (page * codePageSize % 2 ^ 32)⟩)
      (fun h => by cases h)).frame
    dsimp only
    split <;> exact ⟨hf.pending, hf.processing⟩

theorem pstorageStore_moves (dest : Handle) (src : Nat) (data : List Byte) (offset : Nat)
    {direct : List Call} (hs : Shape s direct) :
    ∃ direct', Moves s direct (pstorageStore env dest src data offset s).2 direct'
      (if (pstorageStore env dest src data offset s).1 = nrfSuccess
        then [.store dest src data offset] else []) := by
  have hbuffer : ∀ {s : State}, Shape s direct →
      (s.lazyEraseActive ∨ s.processingPending ∨ 0 < s.pending.count) →
      Moves s direct (pendingPacketAdd dest src data offset s).2 direct
        (if (if (pendingPacketAdd dest src data offset s).1 then nrfSuccess else nrfErrorNoMem) =
          nrfSuccess then [.store dest src data offset] else []) := by
    intro s hs hwait
    have h := @Moves.ofBuffer _ dest src offset data _ hs hwait
    cases hadd : (pendingPacketAdd dest src data offset s).1 <;> rw [hadd] at h <;> exact h
  unfold pstorageStore
  split
  · exact ⟨direct, .refl hs⟩
  split
  · exact ⟨direct, hbuffer hs (by assumption)⟩
  rename_i hplain
  have hlazy : s.lazyEraseActive = false := by simpa using fun h => hplain (.inl h)
  have hproc : s.processingPending = false := by simpa using fun h => hplain (.inr (.inl h))
  have hcount : s.pending.count = 0 := by omega
  have herase := @lazyErase_moves env _ dest data.length offset _ hs hlazy hproc
  obtain ⟨hpend, hproc'⟩ := @lazyErase_keeps env _ dest data.length offset hs.empty
  generalize lazyEraseCheckAndTrigger env dest data.length offset s = r at herase hpend hproc' ⊢
  obtain ⟨ret, s₁⟩ := r
  dsimp only at herase hpend hproc' ⊢
  split
  · exact ⟨direct, herase⟩
  split
  · rename_i hactive
    exact ⟨direct, herase.trans (hbuffer herase.shape (.inl hactive))⟩
  · rename_i hactive
    obtain ⟨direct', hm⟩ := Moves.ofDirect (c := .store dest src data offset) herase.shape
      (by simpa using hactive) (hproc'.trans hproc) (by rw [hpend]; exact hcount)
      (@enqueued env _ herase.shape.empty _ (Call.opCode_cmd _))
    exact ⟨direct', herase.trans hm⟩

theorem pstorageClear_moves (dest : Handle) (size : Nat) {direct : List Call}
    (hs : Shape s direct) :
    ∃ direct', Moves s direct (pstorageClear env dest size s).2 direct'
      (if (pstorageClear env dest size s).1 = nrfSuccess then [.clear dest size] else []) := by
  unfold pstorageClear
  split
  · exact ⟨direct, .refl hs⟩
  · rename_i hplain
    exact Moves.ofDirect (c := .clear dest size) hs (by simpa using fun h => hplain (.inl h))
      (by simpa using fun h => hplain (.inr (.inl h))) (by omega)
      (@enqueued env _ hs.empty _ (Call.opCode_cmd _))

theorem callOf_moves (c : Call) {direct : List Call} (hs : Shape s direct) :
    ∃ direct', Moves s direct (callOf env c s).2 direct'
      (if (callOf env c s).1 = nrfSuccess then [c] else []) := by
  cases c with
  | store dest src data offset => exact pstorageStore_moves dest src data offset hs
  | clear dest size => exact pstorageClear_moves dest size hs

/-! ## The head of the queue -/

/-- The SoftDevice begins one more round of the request at the head. -/
theorem begun_succ {direct : List Call} (hs : Shape s direct) (hpos : 0 < s.queue.count) (n : Nat) :
    begun s (n + 1) direct = begun s n direct ++
      if s.queue.front.flag ≠ .lazyErase then [opOf s s.queue.front n] else [] := by
  cases hs.phase with
  | plain hl hp hq hd =>
    cases direct with
    | nil =>
      rw [List.map_nil, Ring.toList_eq_nil] at hq
      omega
    | cons c rest =>
      rw [Ring.front_eq hq, begun_cons, begun_cons, List.range_succ, List.map_append,
        if_pos (by rw [c.flag_cmd]; exact fun h => by cases h), c.opOf_cmd]
      rfl
  | erasing hl hp hq =>
    cases direct with
    | nil =>
      rw [Ring.front_eq hq, begun_nil hp, begun_nil hp]
      rfl
    | cons c rest =>
      rw [Ring.front_eq hq, begun_cons, begun_cons, List.range_succ, List.map_append,
        if_pos (by rw [c.flag_cmd]; exact fun h => by cases h), c.opOf_cmd]
      rfl
  | storing hl hp hpend hq =>
    have hmem : s.pending.front ∈ s.pending.toList := by
      rw [Ring.toList_eq_front_cons hpend]
      exact List.mem_cons_self
    rw [Ring.front_eq hq, begun, begun, if_pos hp, if_pos hp, List.range_succ, List.map_append,
      if_pos (fun h => by cases h), Pending.opOf_cmd (p := s.pending.front) rfl (hs.sized _ hmem)]
    rfl

theorem Shape.front_opCode {direct : List Call} (hs : Shape s direct) (hpos : 0 < s.queue.count) :
    s.queue.front.opCode ≠ .invalid := by
  cases hs.phase with
  | plain hl hp hq hd =>
    cases direct with
    | nil =>
      rw [List.map_nil, Ring.toList_eq_nil] at hq
      omega
    | cons c rest => rw [Ring.front_eq hq]; exact c.opCode_cmd
  | erasing hl hp hq =>
    cases direct with
    | nil => rw [Ring.front_eq hq]; exact fun h => by cases h
    | cons c rest => rw [Ring.front_eq hq]; exact c.opCode_cmd
  | storing hl hp hpend hq => rw [Ring.front_eq hq]; exact fun h => by cases h

theorem Phase.frame {direct : List Call} (h : Phase s direct) (hf : Frame s s')
    (hq : s'.queue.toList = s.queue.toList) : Phase s' direct := by
  cases h with
  | plain hl hp hq' hd =>
    exact .plain (hf.lazy.trans hl) (hf.processing.trans hp) (hq.trans hq') (hf.pending ▸ hd)
  | erasing hl hp hq' => exact .erasing (hf.lazy.trans hl) (hf.processing.trans hp) (hq.trans hq')
  | storing hl hp hpos hq' =>
    exact .storing (hf.lazy.trans hl) (hf.processing.trans hp) (hf.pending ▸ hpos)
      (by rw [hf.pending]; exact hq.trans hq')

theorem Moves.ofProcess {direct : List Call} (hs : Shape s direct) (hpos : 0 < s.queue.count)
    (hidle : s.flashAccess = .idle) : Moves s direct (asked env s.queue.front s) direct [] := by
  refine ⟨⟨hs.phase.frame (frame_asked _) rfl, hs.sized, fun h => ?_, hs.rounds⟩,
    (List.append_nil _).symm, ⟨_, started_asked _, ?_⟩, rfl, rfl,
    fun ha => absurd hidle (ha (Nat.pos_iff_ne_zero.mp hpos)), id⟩
  · exact absurd h (Nat.pos_iff_ne_zero.mp hpos)
  · have hin : inProgress s = s.roundVal := by rw [inProgress, hidle]; rfl
    have hbegun : ∀ n, begun (asked env s.queue.front s) n direct = begun s n direct := by
      intro n
      cases direct <;> rfl
    rw [inProgress_asked, hin, hbegun]
    by_cases hok : env.sd s.issued.length = nrfSuccess
    · rw [if_pos hok, begun_succ hs hpos]
      by_cases hlazy : s.queue.front.flag = .lazyErase
      · rw [if_neg (not_not_intro hlazy), if_neg (fun h => h.2 hlazy)]
      · rw [if_pos hlazy, if_pos ⟨hok, hlazy⟩]
    · rw [if_neg hok, if_neg (fun h => hok h.1), List.append_nil, Nat.add_zero]

end OtaFix.Pstorage

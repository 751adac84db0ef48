import Mathlib.Algebra.Ring.Nat
import OtaFix.Lib.Run
import OtaFix.Dfu.Serial

/-!
# The DFU calls

The six entry points of `dfu_single_bank.c` and its two callbacks, in any order
and with any flash contents. `log` records what a session does; every entry is
checked against the entries before it.
-/

namespace OtaFix

open Lib

/-! ## Calls -/

/-- What a call does besides changing the variables. -/
inductive DfuAct where
  /-- START is admitted, under the limit `DFU_IMAGE_MAX_SIZE_FULL`. -/
  | started (imageSize limit : Nat)
  /-- `dfu_init_prevalidate` accepts the packet. -/
  | prevalidated (packet : List Byte) (imageSize : Nat)
  | erase (imageSize : Nat)
  | store (offset : Nat) (bytes : List Byte) (imageSize : Nat)
  /-- A DATA packet is rejected as over-length. -/
  | overlength
  | validated (imageSize : Nat)
  | activated (st : UpdateStatus)
  deriving DecidableEq, Repr

/-- A data packet and whether its pointer is word aligned. -/
structure DataPacket where
  words : WordData
  aligned : Bool

/-- The calls; `none` is a null packet, and `stored` what the storage queue answers to
the store of a DATA packet. -/
inductive DfuCall where
  | start (p : StartPacket)
  | init (data : WordData)
  | initComplete
  | data (p : Option DataPacket) (stored : Bool)
  | validate
  | activate
  /-- The completion of the bank's erase. -/
  | cleared
  /-- `dfu_timeout_handler`. -/
  | timeout

/-- The `PSTORAGE_CLEAR_OP_CODE` branch of `pstorage_callback_handler`. -/
def dfuCleared (cfg : DfuConfig) (d : Dfu) : Dfu :=
  if d.state = .preparing then { d with state := if cfg.signedFw then .rxDataPkt else .rdy } else d

/-- `dfu_prepare_func_app_erase`; without a SoftDevice it completes at once. -/
def dfuPrepare (cfg : DfuConfig) (ota : Bool) (d : Dfu) : Dfu × List DfuAct :=
  let d := { d with state := .preparing }
  (if ota then d else dfuCleared cfg d, [.erase d.imageSize])

def dfuStartPktHandle (cfg : DfuConfig) (ota : Bool) (p : StartPacket) (m : Mem) (d : Dfu) :
    Dfu × List DfuAct :=
  let r := dfuStartAdmit p m d
  if r.1 ≠ .success then (r.2, [])
  else
    let started : DfuAct := .started r.2.imageSize (dfuImageMaxSizeFull m)
    if cfg.signedFw then ({ r.2 with state := .rdy }, [started])
    else ((dfuPrepare cfg ota r.2).1, started :: (dfuPrepare cfg ota r.2).2)

def dfuInitPktComplete (cfg : DfuConfig) (ota : Bool) (m : Mem) (d : Dfu) : Dfu × List DfuAct :=
  let r := dfuInitAdmit cfg m d
  if r.1 ≠ .success then (r.2, [])
  else
    let accepted : DfuAct := .prevalidated d.initPacket d.imageSize
    if cfg.signedFw then ((dfuPrepare cfg ota r.2).1, accepted :: (dfuPrepare cfg ota r.2).2)
    else ({ r.2 with state := .rxDataPkt }, [accepted])

def dfuDataPktHandle (ota : Bool) (p : Option DataPacket) (stored : Bool) (d : Dfu) :
    Dfu × List DfuAct :=
  match p with
  | none => (d, [])
  | some p =>
    if !p.aligned then (d, [])
    else
      let r := dfuDataAdmit p.words d
      if r.1 = .dataSize then (r.2, [.overlength])
      else if r.1 ≠ .success then (r.2, [])
      else if ota && !stored then (r.2, [])
      else ((dfuDataCount p.words r.2).2, [.store r.2.dataReceived p.words.bytes r.2.imageSize])

def dfuImageActivate (m : Mem) (d : Dfu) : List DfuAct :=
  if d.state = .wait4Activate then [.activated (dfuActivateStatus m d)] else []

def dfuHandle (cfg : DfuConfig) (ota : Bool) (m : Mem) (d : Dfu) : DfuCall → Dfu × List DfuAct
  | .start p => dfuStartPktHandle cfg ota p m d
  | .init data => ((dfuInitPktHandle data d).2, [])
  | .initComplete => dfuInitPktComplete cfg ota m d
  | .data p stored => dfuDataPktHandle ota p stored d
  | .validate =>
    let r := dfuImageValidate cfg m d
    (r.2, if r.1 = .success then [.validated d.imageSize] else [])
  | .activate => (d, dfuImageActivate m d)
  | .cleared => (dfuCleared cfg d, [])
  | .timeout => ({ d with timedOut := true }, [])

/-- A session and its log. -/
structure DfuSession where
  d : Dfu
  log : List DfuAct := []

/-- A call, with the flash it finds. -/
structure DfuEvent where
  flash : Mem
  call : DfuCall

def dfuStep (cfg : DfuConfig) (ota : Bool) (s : DfuSession) (e : DfuEvent) : DfuSession :=
  let r := dfuHandle cfg ota e.flash s.d e.call
  ⟨r.1, s.log ++ r.2⟩

/-! ## What an entry promises -/

/-- The bytes of the DATA packets accepted so far. -/
def storedBytes (log : List DfuAct) : Nat :=
  (log.map fun
    | .store _ bytes _ => bytes.length
    | _ => 0).sum

/-- In a signed build, a signed INIT packet for this size was accepted. -/
def Authenticated (cfg : DfuConfig) (log : List DfuAct) (size : Nat) : Prop :=
  cfg.signedFw = true → ∃ packet ext, .prevalidated packet size ∈ log ∧
    initExtended cfg packet = some ext ∧ initSignatureOk cfg packet ext size = true ∧
    wordAt ext 4 = size

/-- What must precede an entry. -/
def Allowed (cfg : DfuConfig) (before : List DfuAct) : DfuAct → Prop
  | .erase size => Authenticated cfg before size
  | .store offset bytes size => offset = storedBytes before ∧ offset + bytes.length ≤ size ∧
      (∃ limit, .started size limit ∈ before ∧ size ≤ limit) ∧ .overlength ∉ before ∧
      Authenticated cfg before size
  | .validated size => .overlength ∉ before ∧ storedBytes before = size
  | .activated _ => ∃ size packet, .prevalidated packet size ∈ before ∧ .validated size ∈ before ∧
      storedBytes before = size
  | _ => True

/-- Every entry is allowed by those before it. -/
def LogOk (cfg : DfuConfig) (log : List DfuAct) : Prop :=
  ∀ before a after, log = before ++ a :: after → Allowed cfg before a

variable {cfg : DfuConfig} {log acts : List DfuAct} {a : DfuAct} {d d' : Dfu} {size : Nat}

theorem LogOk.snoc (h : LogOk cfg log) (ha : Allowed cfg log a) : LogOk cfg (log ++ [a]) := by
  intro before b after heq
  rcases List.eq_nil_or_concat after with rfl | ⟨after', c, rfl⟩
  · obtain ⟨rfl, heq⟩ := List.append_inj' heq rfl
    obtain rfl : a = b := by simpa using heq
    exact ha
  · rw [List.concat_eq_append, ← List.cons_append, ← List.append_assoc] at heq
    exact h before b after' (List.append_inj' heq rfl).1

theorem storedBytes_append (log acts : List DfuAct) :
    storedBytes (log ++ acts) = storedBytes log + storedBytes acts := by
  simp [storedBytes]

theorem Authenticated.mono (h : Authenticated cfg log size) (acts : List DfuAct) :
    Authenticated cfg (log ++ acts) size := by
  intro hs
  obtain ⟨packet, ext, hm, hext, hsig, hsize⟩ := h hs
  exact ⟨packet, ext, List.mem_append_left _ hm, hext, hsig, hsize⟩

/-! ## The checks -/

/-- An admissible size is a number of words, so the spoilt count exceeds it. -/
theorem dfuStartPacketValidate_lt {p : StartPacket} (h : dfuStartPacketValidate p = .ok size) :
    size < 0xFFFFFFFF := by
  unfold dfuStartPacketValidate at h
  split at h
  · cases h
  rename_i hmode
  split at h
  · cases h
  rename_i hsum
  obtain rfl := Except.ok.inj h
  simp only [not_or, ne_eq, not_not] at hmode hsum
  omega

/-- An accepted INIT packet of a signed build is signed for the size of START. -/
theorem dfuInitPrevalidate_signed {m : Mem} {data old : List Byte} {mode : Nat}
    (h : (dfuInitPrevalidate cfg m data mode size old).1 = .success) (hs : cfg.signedFw = true) :
    ∃ ext, initExtended cfg data = some ext ∧ initSignatureOk cfg data ext size = true ∧
      wordAt ext 4 = size := by
  unfold dfuInitPrevalidate at h
  cases hext : initExtended cfg data with
  | none =>
    rw [hext] at h
    cases h
  | some ext =>
    rw [hext] at h
    simp only at h
    split_ifs at h with h1 h2 h3 h4
    have hsig : initSignatureOk cfg data ext size = true := by
      by_contra hno
      exact h4 ⟨hs, by simpa using hno⟩
    refine ⟨ext, rfl, hsig, ?_⟩
    simp only [initSignatureOk, Bool.and_eq_true, decide_eq_true_eq] at hsig
    exact hsig.2

theorem dfuInitAdmit_success {m : Mem} (h : (dfuInitAdmit cfg m d).1 = .success) :
    d.state = .rxInitPkt ∧ (dfuInitPrevalidate cfg m d.initPacket d.startPacket.dfuUpdateMode
      d.imageSize d.extendedPacket).1 = .success := by
  unfold dfuInitAdmit at h
  split_ifs at h with h0 h1
  simp only at h
  split at h
  · rename_i hok
    exact ⟨not_not.mp h1, hok⟩
  · exact absurd h ‹_›

/-! ## The invariant -/

/-- The states behind the INIT packet. -/
def Admitted (cfg : DfuConfig) (s : DfuState) : Prop :=
  s = .rxDataPkt ∨ s = .validate ∨ s = .wait4Activate ∨ (s = .preparing ∧ cfg.signedFw = true)

structure MachineInv (cfg : DfuConfig) (s : DfuSession) : Prop where
  logOk : LogOk cfg s.log
  init_le : s.d.initPacket.length ≤ 128
  idle : s.d.state = .idle → s.log = [] ∧ s.d.dataReceived = 0
  started : s.d.state ≠ .idle →
    (∃ limit, .started s.d.imageSize limit ∈ s.log ∧ s.d.imageSize ≤ limit) ∧
      s.d.imageSize < 0xFFFFFFFF
  admitted : Admitted cfg s.d.state → (∃ packet, .prevalidated packet s.d.imageSize ∈ s.log) ∧
    Authenticated cfg s.log s.d.imageSize
  count : (s.d.dataReceived = storedBytes s.log ∧ .overlength ∉ s.log) ∨
    s.d.dataReceived = 0xFFFFFFFF
  ready : s.d.state = .wait4Activate →
    .validated s.d.imageSize ∈ s.log ∧ storedBytes s.log = s.d.imageSize

theorem machineInv_init (cfg : DfuConfig) (base : Nat) :
    MachineInv cfg ⟨{ blockId := base }, []⟩ where
  logOk := fun before a after h => by cases before <;> cases h
  init_le := Nat.zero_le _
  idle := fun _ => ⟨rfl, rfl⟩
  started := fun h => absurd rfl h
  admitted := by rintro (h | h | h | ⟨h, -⟩) <;> cases h
  count := .inl ⟨rfl, List.not_mem_nil⟩
  ready := fun h => by cases h

/-- A change of phase, with what the new phase needs. -/
theorem MachineInv.phase (hI : MachineInv cfg ⟨d, log⟩) (hinit : d'.initPacket.length ≤ 128)
    (hsize : d'.imageSize = d.imageSize) (hdata : d'.dataReceived = d.dataReceived)
    (hidle : d'.state = .idle ↔ d.state = .idle)
    (hadm : Admitted cfg d'.state → (∃ packet, .prevalidated packet d.imageSize ∈ log) ∧
      Authenticated cfg log d.imageSize)
    (hready : d'.state = .wait4Activate →
      .validated d.imageSize ∈ log ∧ storedBytes log = d.imageSize) :
    MachineInv cfg ⟨d', log⟩ where
  logOk := hI.logOk
  init_le := hinit
  idle := by
    simp only [hdata]
    exact fun h => hI.idle (hidle.mp h)
  started := by
    simp only [hsize]
    exact fun h => hI.started fun h' => h (hidle.mpr h')
  admitted := by
    simp only [hsize]
    exact hadm
  count := by
    simp only [hdata]
    exact hI.count
  ready := by
    simp only [hsize]
    exact hready

/-- An entry that stores nothing and needs nothing. -/
theorem MachineInv.note (hI : MachineInv cfg ⟨d, log⟩) (hne : d.state ≠ .idle)
    (ha : Allowed cfg log a) (hbytes : storedBytes [a] = 0) (hover : a ≠ .overlength) :
    MachineInv cfg ⟨d, log ++ [a]⟩ where
  logOk := hI.logOk.snoc ha
  init_le := hI.init_le
  idle := fun h => absurd h hne
  started := by
    intro h
    obtain ⟨⟨limit, hm, hle⟩, hlt⟩ := hI.started h
    exact ⟨⟨limit, List.mem_append_left _ hm, hle⟩, hlt⟩
  admitted := by
    intro h
    obtain ⟨⟨packet, hm⟩, hauth⟩ := hI.admitted h
    exact ⟨⟨packet, List.mem_append_left _ hm⟩, hauth.mono _⟩
  count := by
    rcases hI.count with ⟨h1, h2⟩ | h
    · refine .inl ⟨?_, ?_⟩
      · rw [storedBytes_append, hbytes]
        exact h1
      · simp only [List.mem_append, List.mem_singleton, not_or]
        exact ⟨h2, hover.symm⟩
    · exact .inr h
  ready := by
    intro h
    obtain ⟨h1, h2⟩ := hI.ready h
    refine ⟨List.mem_append_left _ h1, ?_⟩
    rw [storedBytes_append, hbytes]
    exact h2

/-! ## Calls keep it -/

variable {m : Mem} {ota : Bool}

theorem MachineInv.cleared (hI : MachineInv cfg ⟨d, log⟩) : MachineInv cfg ⟨dfuCleared cfg d, log⟩ := by
  unfold dfuCleared
  split
  · rename_i hst
    refine hI.phase hI.init_le rfl rfl ?_ ?_ ?_
    · cases cfg.signedFw <;> simp [hst]
    · cases hsigned : cfg.signedFw with
      | true => exact fun _ => hI.admitted (.inr (.inr (.inr ⟨hst, hsigned⟩)))
      | false => rintro (h | h | h | ⟨h, -⟩) <;> cases h
    · cases cfg.signedFw <;> rintro ⟨⟩
  · exact hI

theorem MachineInv.prepare (hI : MachineInv cfg ⟨d, log⟩) (hne : d.state ≠ .idle)
    (hauth : Authenticated cfg log d.imageSize)
    (hpre : cfg.signedFw = true → ∃ packet, .prevalidated packet d.imageSize ∈ log) :
    MachineInv cfg ⟨(dfuPrepare cfg ota d).1, log ++ (dfuPrepare cfg ota d).2⟩ := by
  have hnote : MachineInv cfg ⟨d, log ++ [.erase d.imageSize]⟩ :=
    hI.note hne hauth rfl (by simp)
  have hprep : MachineInv cfg ⟨{ d with state := .preparing }, log ++ [.erase d.imageSize]⟩ := by
    refine hnote.phase hnote.init_le rfl rfl ⟨fun h => (by cases h), fun h => absurd h hne⟩ ?_
      fun h => (by cases h)
    rintro (h | h | h | ⟨-, hs⟩)
    · cases h
    · cases h
    · cases h
    · obtain ⟨packet, hm⟩ := hpre hs
      exact ⟨⟨packet, List.mem_append_left _ hm⟩, hauth.mono _⟩
  unfold dfuPrepare
  simp only
  cases ota with
  | true => exact hprep
  | false => exact hprep.cleared

theorem MachineInv.start (hI : MachineInv cfg ⟨d, log⟩) (p : StartPacket) :
    MachineInv cfg ⟨(dfuStartPktHandle cfg ota p m d).1,
      log ++ (dfuStartPktHandle cfg ota p m d).2⟩ := by
  unfold dfuStartPktHandle
  rcases dfuStartAdmit_cases p m d with
    ⟨hr, hsame, hst, hdata, -⟩ | ⟨hr, hidle, size, hp, hle, heq⟩
  · simp only [hr, ne_eq, not_false_eq_true, if_true, List.append_nil]
    by_cases hidle : d.state = .idle
    · -- a refused START changes only what the next START overwrites
      have hst' := hst.trans hidle
      obtain ⟨hlog, h0⟩ := hI.idle hidle
      have hbuf : (dfuStartAdmit p m d).2.initPacket = d.initPacket := by
        unfold dfuStartAdmit
        split
        · rfl
        · cases dfuStartPacketValidate p <;> simp only
          split_ifs <;> rfl
      refine ⟨hI.logOk, by rw [hbuf]; exact hI.init_le, fun _ => ⟨hlog, hdata.trans h0⟩,
        fun h => absurd hst' h, ?_, ?_, ?_⟩
      · simp [Admitted, hst']
      · rw [hdata]
        exact hI.count
      · simp [hst']
    · rw [hsame hidle]
      exact hI
  · obtain ⟨hlog, h0⟩ := hI.idle hidle
    simp only at hlog h0
    subst hlog
    simp only [hr, heq, ne_eq, not_true_eq_false, if_false, List.nil_append]
    have hready : MachineInv cfg ⟨{ d with startPacket := p, imageSize := size, state := .rdy },
        [.started size (dfuImageMaxSizeFull m)]⟩ := by
      refine ⟨?_, hI.init_le, fun h => (by cases h), fun _ => ⟨⟨_, by simp, hle⟩,
        dfuStartPacketValidate_lt hp⟩, ?_, .inl ⟨h0, by simp⟩, fun h => (by cases h)⟩
      · exact hI.logOk.snoc trivial
      · rintro (h | h | h | ⟨h, -⟩) <;> cases h
    cases hsigned : cfg.signedFw with
    | true => exact hready
    | false =>
      simp only [Bool.false_eq_true, if_false]
      refine hready.prepare (fun h => (by cases h)) ?_ ?_
      · intro h
        rw [hsigned] at h
        cases h
      · intro h
        rw [hsigned] at h
        cases h

theorem MachineInv.init (hI : MachineInv cfg ⟨d, log⟩) (data : WordData) :
    MachineInv cfg ⟨(dfuInitPktHandle data d).2, log⟩ := by
  have hbuf : (dfuInitPktHandle data d).2.initPacket.length ≤ 128 := by
    have hle := hI.init_le
    simp only at hle
    unfold dfuInitPktHandle
    split
    · exact hle
    simp only
    split_ifs with h1 h2 h3 h4
    · exact hle
    · exact hle
    · exact hle
    · exact hle
    · rw [List.length_append]
      omega
  rcases dfuInitPktHandle_cases data d with ⟨-, heq⟩ | ⟨hst, packet, heq⟩
  · rw [heq]
    exact hI
  · have hne : d.state ≠ .idle := by rcases hst with h | h <;> rw [h] <;> decide
    refine hI.phase hbuf ?_ ?_ ?_ ?_ ?_ <;> rw [heq]
    · simp [hne]
    · rintro (h | h | h | ⟨h, -⟩) <;> cases h
    · rintro ⟨⟩

theorem MachineInv.initComplete (hI : MachineInv cfg ⟨d, log⟩) :
    MachineInv cfg ⟨(dfuInitPktComplete cfg ota m d).1,
      log ++ (dfuInitPktComplete cfg ota m d).2⟩ := by
  obtain ⟨ext, packet, heq, -⟩ := dfuInitAdmit_cases cfg m d
  have hlen : (dfuInitAdmit cfg m d).2.initPacket.length ≤ 128 := by
    have hle := hI.init_le
    simp only at hle
    unfold dfuInitAdmit
    split_ifs
    · exact hle
    · exact hle
    · simp only
      split
      · exact hle
      · exact Nat.zero_le _
  have hmoved : MachineInv cfg ⟨(dfuInitAdmit cfg m d).2, log⟩ := by
    refine hI.phase hlen ?_ ?_ ?_ ?_ ?_ <;> rw [heq]
    · exact hI.admitted
    · exact hI.ready
  unfold dfuInitPktComplete
  simp only
  split_ifs with hr hsigned
  · rw [List.append_nil]
    exact hmoved
  · -- signed: the packet is noted, then the bank is erased
    obtain ⟨hst, hpre⟩ := dfuInitAdmit_success (not_not.mp hr)
    obtain ⟨ext', hext, hsig, hword⟩ := dfuInitPrevalidate_signed hpre hsigned
    have hne : (dfuInitAdmit cfg m d).2.state ≠ .idle := by
      rw [heq]
      simp [hst]
    have hsize : (dfuInitAdmit cfg m d).2.imageSize = d.imageSize := by rw [heq]
    have hnote := hmoved.note (a := .prevalidated d.initPacket d.imageSize) hne trivial rfl (by simp)
    rw [List.append_cons]
    refine hnote.prepare hne ?_ ?_ <;> rw [hsize]
    · exact fun _ => ⟨d.initPacket, ext', by simp, hext, hsig, hword⟩
    · exact fun _ => ⟨d.initPacket, by simp⟩
  · obtain ⟨hst, -⟩ := dfuInitAdmit_success (not_not.mp hr)
    have hne : (dfuInitAdmit cfg m d).2.state ≠ .idle := by
      rw [heq]
      simp [hst]
    have hnote := hmoved.note (a := .prevalidated d.initPacket d.imageSize) hne trivial rfl (by simp)
    refine hnote.phase hlen rfl rfl ⟨fun h => (by cases h), fun h => absurd h hne⟩ ?_
      fun h => (by cases h)
    intro _
    have hsize : (dfuInitAdmit cfg m d).2.imageSize = d.imageSize := by rw [heq]
    rw [hsize]
    exact ⟨⟨d.initPacket, by simp⟩, fun h => absurd h hsigned⟩

/-- Only an over-length packet changes the variables, and spoils the count. -/
theorem dfuDataAdmit_overlength (data : WordData) (d : Dfu) :
    ((dfuDataAdmit data d).1 = .dataSize ∧ d.state = .rxDataPkt ∧
      (dfuDataAdmit data d).2 = { d with dataReceived := 0xFFFFFFFF }) ∨
    ((dfuDataAdmit data d).1 ≠ .dataSize ∧ (dfuDataAdmit data d).2 = d) := by
  unfold dfuDataAdmit
  split_ifs with h1 h2 h3
  · exact .inr ⟨by simp, rfl⟩
  · exact .inl ⟨rfl, not_not.mp h1, rfl⟩
  · exact .inr ⟨by simp, rfl⟩
  · exact .inr ⟨by simp, rfl⟩

theorem MachineInv.data (hI : MachineInv cfg ⟨d, log⟩) (p : Option DataPacket) (stored : Bool) :
    MachineInv cfg ⟨(dfuDataPktHandle ota p stored d).1,
      log ++ (dfuDataPktHandle ota p stored d).2⟩ := by
  have hquiet : MachineInv cfg ⟨d, log ++ []⟩ := by rwa [List.append_nil]
  unfold dfuDataPktHandle
  cases p with
  | none => exact hquiet
  | some p =>
    simp only
    split
    · exact hquiet
    rcases dfuDataAdmit_overlength p.words d with ⟨hr, hst, heq⟩ | ⟨hr, heq⟩
    · rw [if_pos hr, heq]
      obtain ⟨⟨limit, hm, hle⟩, hlt⟩ := hI.started (by simp [hst])
      obtain ⟨⟨packet, hpm⟩, hauth⟩ := hI.admitted (.inl hst)
      exact {
        logOk := hI.logOk.snoc trivial
        init_le := hI.init_le
        idle := by simp [hst]
        started := fun _ => ⟨⟨limit, List.mem_append_left _ hm, hle⟩, hlt⟩
        admitted := fun _ => ⟨⟨packet, List.mem_append_left _ hpm⟩, hauth.mono _⟩
        count := .inr rfl
        ready := by simp [hst] }
    · rw [if_neg hr, heq]
      split_ifs with h1 h2
      · exact hquiet
      · exact hquiet
      rcases dfuDataAdmit_cases p.words d with ⟨hno, -⟩ | ⟨-, -, hst, hfit⟩
      · exact absurd hno h1
      obtain ⟨⟨limit, hm, hle⟩, hlt⟩ := hI.started (by simp [hst])
      obtain ⟨⟨packet, hpm⟩, hauth⟩ := hI.admitted (.inl hst)
      simp only at hm hle hlt
      obtain ⟨hcount, hover⟩ : d.dataReceived = storedBytes log ∧ .overlength ∉ log := by
        rcases hI.count with h | h
        · exact h
        · simp only at h
          omega
      have hsum : add32 d.dataReceived p.words.bytes.length =
          d.dataReceived + p.words.bytes.length := add32_eq (by omega)
      have hallowed : Allowed cfg log (.store d.dataReceived p.words.bytes d.imageSize) :=
        ⟨hcount, hfit, ⟨limit, hm, hle⟩, hover, hauth⟩
      exact {
        logOk := hI.logOk.snoc hallowed
        init_le := hI.init_le
        idle := by simp [dfuDataCount, hst]
        started := fun _ => ⟨⟨limit, List.mem_append_left _ hm, hle⟩, hlt⟩
        admitted := fun _ => ⟨⟨packet, List.mem_append_left _ hpm⟩, hauth.mono _⟩
        count := by
          refine .inl ⟨?_, ?_⟩
          · simp only [dfuDataCount]
            rw [storedBytes_append, hsum, hcount]
            simp [storedBytes]
          · simp [hover]
        ready := by simp [dfuDataCount, hst] }

theorem MachineInv.validate (hI : MachineInv cfg ⟨d, log⟩) :
    MachineInv cfg ⟨(dfuImageValidate cfg m d).2, log ++
      if (dfuImageValidate cfg m d).1 = .success then [.validated d.imageSize] else []⟩ := by
  rcases dfuImageValidate_cases cfg m d with
    ⟨hr, heq | ⟨crc, hst, heq⟩⟩ | ⟨hr, hst, hfull, crc, -, heq⟩
  · rw [if_neg hr, List.append_nil, heq]
    exact hI
  · rw [if_neg hr, List.append_nil, heq]
    exact hI.phase hI.init_le rfl rfl (by simp [hst]) (fun _ => hI.admitted (.inl hst))
      fun h => (by cases h)
  · rw [if_pos hr, heq]
    have hne : d.state ≠ .idle := by simp [hst]
    obtain ⟨-, hlt⟩ := hI.started hne
    obtain ⟨hcount, hover⟩ : d.dataReceived = storedBytes log ∧ .overlength ∉ log := by
      rcases hI.count with h | h
      · exact h
      · simp only at h hlt
        omega
    have hstored : storedBytes log = d.imageSize := by rw [← hcount, hfull]
    have hnote : MachineInv cfg ⟨d, log ++ [.validated d.imageSize]⟩ :=
      hI.note hne ⟨hover, hstored⟩ rfl (by simp)
    refine hnote.phase hI.init_le rfl rfl (by simp [hst]) (fun _ => hnote.admitted (.inl hst))
      fun _ => ⟨by simp, ?_⟩
    rw [storedBytes_append]
    exact hstored

theorem MachineInv.activate (hI : MachineInv cfg ⟨d, log⟩) :
    MachineInv cfg ⟨d, log ++ dfuImageActivate m d⟩ := by
  unfold dfuImageActivate
  split
  · rename_i hst
    obtain ⟨⟨packet, hm⟩, -⟩ := hI.admitted (.inr (.inr (.inl hst)))
    obtain ⟨hv, hstored⟩ := hI.ready hst
    exact hI.note (by simp [hst]) ⟨d.imageSize, packet, hm, hv, hstored⟩ rfl (by simp)
  · rwa [List.append_nil]

theorem MachineInv.step {s : DfuSession} (hI : MachineInv cfg s) (e : DfuEvent) :
    MachineInv cfg (dfuStep cfg ota s e) := by
  obtain ⟨d, log⟩ := s
  obtain ⟨m, call⟩ := e
  unfold dfuStep
  cases call with
  | start p => exact hI.start p
  | init data =>
    simp only [dfuHandle, List.append_nil]
    exact hI.init data
  | initComplete => exact hI.initComplete
  | data p stored => exact hI.data p stored
  | validate => exact hI.validate
  | activate => exact hI.activate
  | cleared =>
    simp only [dfuHandle, List.append_nil]
    exact hI.cleared
  | timeout =>
    simp only [dfuHandle, List.append_nil]
    exact hI.phase hI.init_le rfl rfl Iff.rfl hI.admitted hI.ready

/-- A packet of the serial transport is a sequence of these calls. -/
theorem processDfuPacket_calls (cfg : DfuConfig) (p : SerialPacket) (d : Dfu) (n : Nvm) :
    ∃ es : List DfuEvent, ∀ log,
      (processDfuPacket cfg p d n).1 = (es.foldl (dfuStep cfg false) ⟨d, log⟩).d := by
  cases p with
  | start p =>
    refine ⟨[⟨n.mem, .start p⟩], fun log => ?_⟩
    simp only [List.foldl_cons, List.foldl_nil, dfuStep, dfuHandle, dfuStartPktHandle,
      processDfuPacket, serialStart]
    split_ifs <;> rfl
  | init data =>
    by_cases hr : (dfuInitPktHandle data d).1 = .success
    · refine ⟨[⟨n.mem, .init data⟩, ⟨n.mem, .initComplete⟩], fun log => ?_⟩
      simp only [List.foldl_cons, List.foldl_nil, dfuStep, dfuHandle, dfuInitPktComplete,
        processDfuPacket, serialInit, hr, ne_eq, not_true_eq_false, if_false]
      split_ifs <;> rfl
    · refine ⟨[⟨n.mem, .init data⟩], fun log => ?_⟩
      simp [dfuStep, dfuHandle, processDfuPacket, serialInit, hr]
  | data data =>
    refine ⟨[⟨n.mem, .data (some ⟨data, true⟩) true⟩], fun log => ?_⟩
    simp only [List.foldl_cons, List.foldl_nil, dfuStep, dfuHandle, dfuDataPktHandle,
      processDfuPacket, serialData]
    by_cases hr : (dfuDataAdmit data d).1 = .success
    · simp [hr, dfuDataCount]
      split_ifs <;> rfl
    · simp only [hr, ne_eq, not_false_eq_true, if_true, Bool.not_true, Bool.false_eq_true, if_false]
      split_ifs <;> rfl
  | stop =>
    refine ⟨[⟨n.mem, .validate⟩], fun log => ?_⟩
    simp only [List.foldl_cons, List.foldl_nil, dfuStep, dfuHandle, processDfuPacket, serialStop]
    split_ifs <;> rfl

/-- In every sequence of calls and callbacks, over any flash contents and any answers of
the storage queue, every entry of the session's log is allowed by those before it, and
the init buffer holds at most its 128 bytes. -/
theorem dfu_session_ok (cfg : DfuConfig) (ota : Bool) (base : Nat) (es : List DfuEvent) :
    let s := es.foldl (dfuStep cfg ota) ⟨{ blockId := base }, []⟩
    LogOk cfg s.log ∧ s.d.initPacket.length ≤ 128 := by
  have hI := (Reach.of_foldl (dfuStep cfg ota) ⟨{ blockId := base }, []⟩ es).invariant
    (machineInv_init cfg base) fun s e hI _ => MachineInv.step hI e
  exact ⟨hI.logOk, hI.init_le⟩

end OtaFix

import OtaFix.Lib.Run
import OtaFix.SecureDfu.Effect

/-!
# The session invariant

A run is any list of control writes and packets, each with the answers its
hooks would give. Next to the session it keeps the hook calls made so far;
`written` reads from them the bytes made durable since the last reset and
`begun` whether `secure_dfu_begin` has succeeded since. `SessionInv` ties the
session's offsets and CRCs to that history.
-/

namespace OtaFix.SecureDfu

open Lib

/-! ## Runs -/

inductive Event where
  | control (h : Hooks) (inp : List Byte)
  | packet (inp : List Byte)

/-- The session and the hook calls made since power-up. -/
structure State where
  session : Session := secureDfuInit
  trace : List Call := [.reset]

def State.next (st : State) (r : Session × List Byte × List Call) : State :=
  ⟨r.1, st.trace ++ r.2.2⟩

def step (cfg : Platform) (st : State) : Event → State
  | .control h inp => st.next (secureDfuControl cfg h st.session inp)
  | .packet inp => st.next (secureDfuPacket st.session inp)

def run (cfg : Platform) (es : List Event) : State := es.foldl (step cfg) {}

/-! ## Reading the history -/

def writtenStep (acc : List Byte) : Call → List Byte
  | .reset => []
  | .write d true => acc ++ d
  | _ => acc

/-- The data of the successful writes since the last reset. -/
def written (t : List Call) : List Byte := t.foldl writtenStep []

def begunStep (acc : Bool) : Call → Bool
  | .reset => false
  | .begin _ true => true
  | _ => acc

/-- A begin has succeeded since the last reset. -/
def begun (t : List Call) : Bool := t.foldl begunStep false

@[simp] theorem written_snoc (t : List Call) (c : Call) :
    written (t ++ [c]) = writtenStep (written t) c := by
  simp [written]

@[simp] theorem begun_snoc (t : List Call) (c : Call) :
    begun (t ++ [c]) = begunStep (begun t) c := by
  simp [begun]

/-- No successful write precedes a successful begin of its own session. -/
def WritesBegun (t : List Call) : Prop :=
  ∀ pre d post, t = pre ++ .write d true :: post → begun pre = true

theorem WritesBegun.snoc {t : List Call} {c : Call} (h : WritesBegun t)
    (hc : ∀ d, c = .write d true → begun t = true) : WritesBegun (t ++ [c]) := by
  intro pre d post heq
  rcases List.eq_nil_or_concat post with rfl | ⟨post', x, rfl⟩
  · obtain ⟨rfl, hw⟩ := List.append_inj' heq rfl
    exact hc d (by simpa using hw)
  · rw [List.concat_eq_append, ← List.cons_append, ← List.append_assoc] at heq
    exact h pre d post' (List.append_inj' heq rfl).1

/-- The image was written out in full when `secure_dfu_finish` succeeded, and no
hook has been called since. -/
def Finished (t : List Call) (size : Nat) : Prop :=
  ∃ pre post, t = pre ++ .finish true :: post ∧ (written pre).length = size ∧
    ∀ c ∈ post, c = .activity

theorem Finished.activity {t : List Call} {size : Nat} (h : Finished t size) :
    Finished (t ++ [.activity]) size := by
  obtain ⟨pre, post, rfl, hlen, hpost⟩ := h
  refine ⟨pre, post ++ [.activity], by simp, hlen, ?_⟩
  intro c hc
  rcases List.mem_append.mp hc with hc | hc
  · exact hpost c hc
  · simpa using hc

/-! ## The invariant -/

structure SessionInv (s : Session) (t : List Call) : Prop where
  command_length : s.command.length = commandMax
  data_length : s.data.length = objectMax
  commandOffset_le : s.commandOffset ≤ s.commandSize
  commandSize_le : s.commandSize ≤ commandMax
  objectOffset_le : s.objectOffset ≤ s.objectSize
  objectSize_le : s.objectSize ≤ objectMax
  committed_le : s.committed + s.objectSize ≤ s.image.size
  image_lt : s.image.size < 2 ^ 32
  written_length : (written t).length = s.committed
  committedCrc_eq : s.committedCrc = crc32 (written t)
  dataCrc_eq : s.dataCrc = crc32 (written t ++ s.data.take s.objectOffset)
  commandCrc_eq : s.commandCrc = crc32 (s.command.take s.commandOffset)
  initialized_begun : s.initialized = true → begun t = true
  uninitialized_empty : s.initialized = false → s.committed = 0 ∧ s.objectSize = 0
  writes_begun : WritesBegun t
  completed_initialized : s.completed = true → s.initialized = true
  completed_finished : s.completed = true → s.committed = s.image.size ∧ Finished t s.image.size

theorem sessionInv_init : SessionInv secureDfuInit [.reset] where
  command_length := List.length_replicate
  data_length := List.length_replicate
  commandOffset_le := Nat.le_refl _
  commandSize_le := Nat.zero_le _
  objectOffset_le := Nat.le_refl _
  objectSize_le := Nat.zero_le _
  committed_le := Nat.le_refl _
  image_lt := by decide
  written_length := rfl
  committedCrc_eq := crc32_nil.symm
  dataCrc_eq := crc32_nil.symm
  commandCrc_eq := crc32_nil.symm
  initialized_begun h := by cases h
  uninitialized_empty _ := ⟨rfl, rfl⟩
  writes_begun := by
    intro pre d post h
    rcases pre with _ | ⟨c, pre⟩ <;> simp at h
  completed_initialized h := by cases h
  completed_finished h := by cases h

variable {cfg : Platform} {s s' : Session} {t calls : List Call}

theorem SessionInv.activity (hI : SessionInv s t) : SessionInv s (t ++ [.activity]) where
  __ := hI
  written_length := by simpa [writtenStep] using hI.written_length
  committedCrc_eq := by simpa [writtenStep] using hI.committedCrc_eq
  dataCrc_eq := by simpa [writtenStep] using hI.dataCrc_eq
  initialized_begun h := by simpa [begunStep] using hI.initialized_begun h
  writes_begun := hI.writes_begun.snoc (by simp)
  completed_finished h := ⟨(hI.completed_finished h).1, (hI.completed_finished h).2.activity⟩

/-! ## One call keeps it -/

theorem SessionInv.quiet (hI : SessionInv s t) (sel : Option ObjectType) (prn cnt : Nat) :
    SessionInv { s with selected := sel, prn := prn, prnCount := cnt } t where
  __ := hI

theorem SessionInv.createCommand (hI : SessionInv s t) {n : Nat} (prn : Nat)
    (hn : n ≤ commandMax) :
    SessionInv { secureDfuInit with prn := prn, commandSize := n, selected := some .command }
      (t ++ [.reset]) where
  __ := sessionInv_init
  commandOffset_le := Nat.zero_le _
  commandSize_le := hn
  written_length := by simp [writtenStep, secureDfuInit]
  committedCrc_eq := by simp [writtenStep, secureDfuInit]
  dataCrc_eq := by simp [writtenStep, secureDfuInit]
  initialized_begun h := by cases h
  uninitialized_empty _ := ⟨rfl, rfl⟩
  writes_begun := hI.writes_begun.snoc (by simp)
  completed_finished h := by cases h

theorem SessionInv.createData (hI : SessionInv s t) {n : Nat} (hc : s.completed = false)
    (hi : s.initialized = true) (hn : n = min (sub32 s.image.size s.committed) objectMax) :
    SessionInv { s with
      objectSize := n, objectOffset := 0, dataCrc := s.committedCrc, executed := false,
      selected := some .data, prnCount := 0 } t where
  __ := hI
  objectOffset_le := Nat.zero_le _
  objectSize_le := by simp only [hn]; omega
  committed_le := by
    have hle := hI.committed_le
    rw [sub32_eq hI.image_lt (by omega)] at hn
    simp only
    omega
  dataCrc_eq := by simpa using hI.committedCrc_eq
  uninitialized_empty h := by rw [show s.initialized = false from h] at hi; cases hi
  completed_finished h := by rw [show s.completed = true from h] at hc; cases hc

/-- A call that leaves the history's writes alone keeps the part that reads them. -/
theorem SessionInv.snoc (hI : SessionInv s t) {c : Call} (hw : writtenStep (written t) c = written t)
    (hb : begunStep (begun t) c = true ∨ begunStep (begun t) c = begun t)
    (hne : ∀ d, c ≠ .write d true) (hc : s.completed = false) : SessionInv s (t ++ [c]) where
  __ := hI
  written_length := by rw [written_snoc, hw]; exact hI.written_length
  committedCrc_eq := by rw [written_snoc, hw]; exact hI.committedCrc_eq
  dataCrc_eq := by rw [written_snoc, hw]; exact hI.dataCrc_eq
  initialized_begun h := by
    rw [begun_snoc]
    rcases hb with hb | hb
    · exact hb
    · rw [hb]; exact hI.initialized_begun h
  writes_begun := hI.writes_begun.snoc fun d hd => absurd hd (hne d)
  completed_finished h := by rw [hc] at h; cases h

theorem SessionInv.not_completed (hI : SessionInv s t)
    (h : s.initialized = false ∨ 0 < s.objectSize) : s.completed = false := by
  by_contra hc
  rw [Bool.not_eq_false] at hc
  have hle := hI.committed_le
  have heq := (hI.completed_finished hc).1
  rcases h with h | h
  · rw [hI.completed_initialized hc] at h; cases h
  · omega

/-- The metadata of an accepted command, whatever `secure_dfu_begin` answers. -/
theorem SessionInv.withImage (hI : SessionInv s t) {image : Image} {b : Bool}
    (hi : s.initialized = false)
    (hp : secureDfuParseCommand cfg (s.command.take s.commandSize) = some image) :
    SessionInv { s with image := image } (t ++ [.begin image b]) := by
  have hc := hI.not_completed (.inl hi)
  have himg : SessionInv { s with image := image } t :=
    { hI with
      committed_le := by
        obtain ⟨h1, h2⟩ := hI.uninitialized_empty hi
        simp only [h1, h2]
        omega
      image_lt := by
        have h1 := (secureDfuParseCommand_size hp).2
        have h2 := cfg.maxImage_lt
        simp only
        omega
      completed_finished := fun h => by rw [hc] at h; cases h }
  refine himg.snoc rfl ?_ (by simp) hc
  cases b
  · exact .inr rfl
  · exact .inl rfl

theorem SessionInv.beginOk (hI : SessionInv s t) {image : Image} (hi : s.initialized = false)
    (hp : secureDfuParseCommand cfg (s.command.take s.commandSize) = some image) :
    SessionInv { s with image := image, initialized := true } (t ++ [.begin image true]) where
  __ := hI.withImage (b := true) hi hp
  initialized_begun _ := by simp [begunStep]
  uninitialized_empty h := by cases h
  completed_initialized _ := rfl

/-- Latching a failure changes nothing the invariant reads. -/
theorem SessionInv.fail (hI : SessionInv s t) : SessionInv { s with failed := true } t where
  __ := hI

/-- The size of a write, and the room it has left. -/
theorem SessionInv.commit_committed (hI : SessionInv s t) :
    (commitObject s).committed = s.committed + s.objectSize := by
  have h1 := hI.committed_le
  have h2 := hI.image_lt
  exact add32_eq (by omega)

theorem SessionInv.commit (hI : SessionInv s t) (hi : s.initialized = true)
    (h0 : 0 < s.objectSize) (hoff : s.objectOffset = s.objectSize) :
    SessionInv (commitObject s) (t ++ [.write (s.data.take s.objectSize) true]) := by
  have hc := hI.not_completed (.inr h0)
  have hcrc := hI.dataCrc_eq
  rw [hoff] at hcrc
  refine { hI with
    objectOffset_le := Nat.le_refl _
    objectSize_le := Nat.zero_le _
    committed_le := ?_
    written_length := ?_
    committedCrc_eq := ?_
    dataCrc_eq := ?_
    initialized_begun := ?_
    uninitialized_empty := ?_
    writes_begun := hI.writes_begun.snoc fun _ _ => hI.initialized_begun hi
    completed_finished := ?_ }
  · rw [hI.commit_committed]
    exact hI.committed_le
  · rw [hI.commit_committed, written_snoc]
    have h1 := hI.written_length
    have h2 := hI.data_length
    have h3 := hI.objectSize_le
    simp only [writtenStep, List.length_append, List.length_take]
    omega
  · rw [written_snoc]
    exact hcrc
  · rw [written_snoc]
    simpa [commitObject, writtenStep] using hcrc
  · intro _
    rw [begun_snoc]
    exact hI.initialized_begun hi
  · intro h
    rw [show s.initialized = false from h] at hi
    cases hi
  · intro h
    rw [show s.completed = true from h] at hc
    cases hc

theorem SessionInv.finish (hI : SessionInv s t) (hi : s.initialized = true)
    (hc : s.completed = false) (heq : s.committed = s.image.size) :
    SessionInv { s with completed := true } (t ++ [.finish true]) where
  __ := hI.snoc (c := .finish true) rfl (.inr rfl) (by simp) hc
  completed_initialized _ := hi
  completed_finished _ :=
    ⟨heq, t, [], rfl, by rw [hI.written_length]; exact heq, by simp⟩

theorem SessionInv.packetCommand (hI : SessionInv s t) {inp : List Byte}
    (hlen : s.commandOffset + inp.length ≤ s.commandSize) : SessionInv (fillCommand s inp) t := by
  have h1 := hI.commandSize_le
  have h2 := hI.command_length
  have hadd : add32 s.commandOffset inp.length = s.commandOffset + inp.length :=
    add32_eq (by unfold commandMax at h1; omega)
  refine { hI with
    command_length := ?_
    commandOffset_le := ?_
    commandCrc_eq := ?_ }
  · exact (memcpy_length (by omega)).trans h2
  · exact Nat.le_trans (Nat.le_of_eq hadd) hlen
  · show otafixCrc32Update s.commandCrc inp = _
    simp only [fillCommand]
    rw [hadd, memcpy_take (by omega), crc32_append, ← hI.commandCrc_eq]

theorem SessionInv.packetData (hI : SessionInv s t) {inp : List Byte}
    (hlen : s.objectOffset + inp.length ≤ s.objectSize) : SessionInv (fillObject s inp) t := by
  have h1 := hI.objectSize_le
  have h2 := hI.data_length
  have hadd : add32 s.objectOffset inp.length = s.objectOffset + inp.length :=
    add32_eq (by unfold objectMax at h1; omega)
  refine { hI with
    data_length := ?_
    objectOffset_le := ?_
    dataCrc_eq := ?_ }
  · exact (memcpy_length (by omega)).trans h2
  · exact Nat.le_trans (Nat.le_of_eq hadd) hlen
  · show otafixCrc32Update s.dataCrc inp = _
    simp only [fillObject]
    rw [hadd, memcpy_take (by omega), ← List.append_assoc, crc32_append, ← hI.dataCrc_eq]

theorem SessionInv.effect (hI : SessionInv s t) (he : Effect cfg s s' calls) :
    SessionInv s' (t ++ calls) := by
  cases he with
  | quiet sel prn cnt => simpa using hI.quiet sel prn cnt
  | createCommand _ _ _ hn => exact hI.createCommand _ hn
  | createData _ hc hi _ hn => simpa using hI.createData hc hi hn
  | beginOk _ hi _ hp => exact hI.beginOk hi hp
  | beginFail _ hi _ hp => exact (hI.withImage hi hp).fail
  | writeFail _ _ _ h0 _ =>
    exact (hI.snoc rfl (.inr rfl) (by simp) (hI.not_completed (.inr h0))).fail
  | writeMore _ hi _ h0 hoff _ => exact hI.commit hi h0 hoff
  | finishOk _ hi _ h0 hoff heq =>
    have hc : (commitObject s).completed = false := hI.not_completed (.inr h0)
    simpa using (hI.commit hi h0 hoff).finish hi hc heq
  | finishFail _ hi _ h0 hoff _ =>
    have hc : (commitObject s).completed = false := hI.not_completed (.inr h0)
    simpa using ((hI.commit hi h0 hoff).snoc (c := .finish false) rfl (.inr rfl) (by simp) hc).fail
  | packetCommand _ _ hlen =>
    rw [List.append_nil]
    exact (hI.packetCommand hlen).quiet s.selected s.prn _
  | packetData _ _ _ hlen =>
    rw [List.append_nil]
    exact (hI.packetData hlen).quiet s.selected s.prn _

theorem SessionInv.acts (hI : SessionInv s t) (ha : Acts cfg s s' calls) :
    SessionInv s' (t ++ calls) := by
  obtain ⟨c, he, rfl | rfl⟩ := ha
  · exact hI.effect he
  · rw [← List.append_assoc]
    exact (hI.effect he).activity

/-! ## A failed session is inert -/

theorem Effect.of_failed (hf : s.failed = true) (he : Effect cfg s s' calls) :
    s'.failed = true ∧ calls = [] := by
  cases he with
  | quiet => exact ⟨hf, rfl⟩
  | _ hf' => rw [hf'] at hf; cases hf

theorem Acts.of_failed (hf : s.failed = true) (ha : Acts cfg s s' calls) :
    s'.failed = true ∧ ∀ c ∈ calls, c = .activity := by
  obtain ⟨c, he, hcalls⟩ := ha
  obtain ⟨hf', rfl⟩ := he.of_failed hf
  refine ⟨hf', ?_⟩
  rcases hcalls with rfl | rfl <;> simp

/-! ## Every run -/

theorem step_acts (cfg : Platform) (st : State) (e : Event) :
    ∃ s' calls, Acts cfg st.session s' calls ∧ step cfg st e = ⟨s', st.trace ++ calls⟩ := by
  cases e with
  | control h inp => exact ⟨_, _, secureDfuControl_acts inp, rfl⟩
  | packet inp => exact ⟨_, _, secureDfuPacket_acts inp, rfl⟩

theorem run_inv (cfg : Platform) (es : List Event) :
    SessionInv (run cfg es).session (run cfg es).trace := by
  refine (Reach.of_foldl (step cfg) {} es).invariant
    (I := fun st => SessionInv st.session st.trace) sessionInv_init ?_
  intro st e hI _
  obtain ⟨s', calls, ha, heq⟩ := step_acts cfg st e
  rw [heq]
  exact hI.acts ha

/-- From a failed session on, a run calls no hook: only the activity timer is fed. -/
theorem foldl_failed (cfg : Platform) (st : State) (hf : st.session.failed = true)
    (es : List Event) :
    (es.foldl (step cfg) st).session.failed = true ∧
      ∃ acts, (es.foldl (step cfg) st).trace = st.trace ++ acts ∧ ∀ c ∈ acts, c = .activity := by
  induction es generalizing st with
  | nil => exact ⟨hf, [], by simp, by simp⟩
  | cons e es ih =>
    obtain ⟨s', calls, ha, heq⟩ := step_acts cfg st e
    obtain ⟨hf', hcalls⟩ := ha.of_failed hf
    rw [List.foldl_cons, heq]
    obtain ⟨h1, acts, h2, h3⟩ := ih ⟨s', st.trace ++ calls⟩ hf'
    refine ⟨h1, calls ++ acts, by rw [h2, List.append_assoc], ?_⟩
    intro c hc
    rcases List.mem_append.mp hc with hc | hc
    · exact hcalls c hc
    · exact h3 c hc

/-- The session's bookkeeping is that of its history, after any calls and any
hook results; a failure is final. -/
theorem secureDfu_session_inv (cfg : Platform) (es : List Event) :
    SessionInv (run cfg es).session (run cfg es).trace ∧
      ((run cfg es).session.failed = true → ∀ later : List Event,
        (run cfg (es ++ later)).session.failed = true ∧
          ∃ acts, (run cfg (es ++ later)).trace = (run cfg es).trace ++ acts ∧
            ∀ c ∈ acts, c = .activity) := by
  refine ⟨run_inv cfg es, fun hf later => ?_⟩
  have h := foldl_failed cfg (run cfg es) hf later
  simpa only [run, List.foldl_append] using h

end OtaFix.SecureDfu

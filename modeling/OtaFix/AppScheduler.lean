import Mathlib.Order.Interval.Finset.Nat
import OtaFix.Image
import OtaFix.Lib.NorFlash
import OtaFix.Lib.Run

/-!
# The event scheduler

`app_scheduler.c`. Interrupts and handlers put events into a ring of `queue_size + 1` entries, and
the main loop takes them out. A call of `app_sched_event_put` reserves its entry inside a critical
region and fills it behind the region, so an interrupt may put further events in between; and a
handler is given the entry itself, which is free again only when the handler has returned.

The handlers are called with what was put, in the order of the reservations, and an event is refused
for room exactly when `queue_size` events wait or are handled (`scheduler_exact`).
-/

namespace OtaFix.AppSched

open Lib

/-! ## The queue -/

/-- `m_queue_event_size` and `m_queue_size`; the indices are bytes. -/
structure Config where
  eventSize : Nat
  queueSize : Nat
  small : queueSize < 256

structure Header where
  handler : Nat
  size : Nat

structure Queue where
  start : Nat
  stop : Nat
  headers : Nat → Header
  data : Mem

/-- The arguments of `app_sched_event_put`; `none` is a null pointer. -/
structure Request where
  handler : Nat
  size : Nat
  data : Option Mem

/-- What a handler is called with. -/
structure Event where
  handler : Nat
  data : List Byte
  deriving DecidableEq

/-- The size that a call stores. -/
def Request.stored (r : Request) : Nat := if r.data.isSome ∧ 0 < r.size then r.size else 0

def Request.event (r : Request) : Event where
  handler := r.handler
  data := r.data.elim [] fun p => slice p 0 r.size

/-- `app_sched_init`: the buffer keeps its bytes. -/
def appSchedInit (headers : Nat → Header) (data : Mem) : Queue := ⟨0, 0, headers, data⟩

section

variable (cfg : Config)

def nextIndex (index : Nat) : Nat := if index < cfg.queueSize then (index + 1) % 256 else 0

def queueFull (q : Queue) : Bool := nextIndex cfg q.stop = q.start

def queueEmpty (q : Queue) : Bool := q.stop = q.start

def appSchedQueueSpaceGet (q : Queue) : Nat :=
  let used : Int := if q.start ≤ q.stop then q.stop - q.start
    else cfg.queueSize + 1 - q.start + q.stop
  ((cfg.queueSize - used) % 2 ^ 16).toNat

/-- What `app_sched_event_put` stores behind its critical region. -/
def fill (i : Nat) (r : Request) (q : Queue) : Queue :=
  { q with
    headers := fun k => if k = i then ⟨r.handler, r.stored⟩ else q.headers k
    data := fun a =>
      if i * cfg.eventSize ≤ a ∧ a < i * cfg.eventSize + r.stored then
        r.event.data.getD (a - i * cfg.eventSize) 0
      else q.data a }

/-- The entry that `app_sched_execute` hands to its handler. -/
def entry (q : Queue) (i : Nat) : Event where
  handler := (q.headers i).handler
  data := slice q.data (i * cfg.eventSize) (q.headers i).size

end

/-! ## Interrupts and the main loop -/

/-- The scheduler, the calls that have reserved an entry, innermost first, and what was accepted,
given to a handler, and still there when the handler returned. -/
structure World where
  queue : Queue
  calls : List (Nat × Request) := []
  running : Bool := false
  accepted : List Event := []
  started : List Event := []
  ended : List Event := []

inductive Step where
  | put (r : Request)
  | fill
  | dispatch
  | finish

section

variable (cfg : Config)

/-- `app_sched_event_put` up to the end of its critical region. -/
def put (w : World) (r : Request) : NrfError × World :=
  if r.size ≤ cfg.eventSize then
    if queueFull cfg w.queue then (.noMem, w)
    else (.success, { w with
      queue := { w.queue with stop := nextIndex cfg w.queue.stop }
      calls := (w.queue.stop, r) :: w.calls
      accepted := w.accepted ++ [r.event] })
  else (.invalidLength, w)

def step (w : World) : Step → World
  | .put r => (put cfg w r).2
  | .fill =>
    match w.calls with
    | [] => w
    | (i, r) :: calls => { w with queue := fill cfg i r w.queue, calls := calls }
  | .dispatch =>
    { w with running := true, started := w.started ++ [entry cfg w.queue w.queue.start] }
  | .finish =>
    { w with
      running := false
      ended := w.ended ++ [entry cfg w.queue w.queue.start]
      queue := { w.queue with start := nextIndex cfg w.queue.start } }

/-- The innermost call is the one that goes on, and the main loop only goes on when every call has
returned. -/
def okb (w : World) : Step → Bool
  | .put _ => true
  | .fill => !w.calls.isEmpty
  | .dispatch => w.calls.isEmpty && !w.running && !queueEmpty w.queue
  | .finish => w.calls.isEmpty && w.running

end

variable {cfg : Config} {w : World} {q : Queue} {r : Request} {i k : Nat}

theorem Request.stored_eq (r : Request) : r.stored = r.event.data.length := by
  unfold stored event
  cases r.data with
  | none => rfl
  | some p =>
    simp only [Option.isSome_some, true_and, Option.elim_some, slice_length]
    split
    · rfl
    · omega

theorem Request.stored_le (r : Request) : r.stored ≤ r.size := by
  unfold stored
  split
  · exact Nat.le_refl _
  · exact Nat.zero_le _

/-! ## Entries -/

theorem entry_fill (cfg : Config) (i : Nat) (r : Request) (q : Queue) :
    entry cfg (fill cfg i r q) i = r.event := by
  have hdata : slice (fill cfg i r q).data (i * cfg.eventSize) r.stored = r.event.data := by
    refine List.ext_getElem? fun j => ?_
    obtain hj | hj := Nat.lt_or_ge j r.stored
    · have hlen : j < r.event.data.length := r.stored_eq ▸ hj
      rw [slice_getElem? hj]
      simp only [fill]
      rw [if_pos ⟨Nat.le_add_right _ _, Nat.add_lt_add_left hj _⟩, Nat.add_sub_cancel_left,
        List.getD_eq_getElem?_getD, List.getElem?_eq_getElem hlen, Option.getD_some]
    · rw [List.getElem?_eq_none (by rw [slice_length]; exact hj),
        List.getElem?_eq_none (by rw [← r.stored_eq]; exact hj)]
  simp only [entry, fill, if_true] at hdata ⊢
  rw [hdata]
  rfl

/-- The entries lie apart. -/
theorem entry_fill_other (hne : k ≠ i) (hsize : (q.headers k).size ≤ cfg.eventSize)
    (hr : r.stored ≤ cfg.eventSize) : entry cfg (fill cfg i r q) k = entry cfg q k := by
  have hapart : k * cfg.eventSize + cfg.eventSize ≤ i * cfg.eventSize ∨
      i * cfg.eventSize + cfg.eventSize ≤ k * cfg.eventSize := by
    rw [← Nat.succ_mul, ← Nat.succ_mul]
    obtain h | h := Nat.lt_or_gt_of_ne hne
    · exact .inl (Nat.mul_le_mul_right _ h)
    · exact .inr (Nat.mul_le_mul_right _ h)
  simp only [entry, fill, if_neg hne, Event.mk.injEq, true_and]
  refine slice_congr fun x h1 h2 => if_neg ?_
  omega

/-! ## Positions -/

theorem nextIndex_mod (cfg : Config) (p : Nat) :
    nextIndex cfg (p % (cfg.queueSize + 1)) = (p + 1) % (cfg.queueSize + 1) := by
  have hlt : p % (cfg.queueSize + 1) < cfg.queueSize + 1 := Nat.mod_lt p (Nat.succ_pos _)
  have hsmall := cfg.small
  rw [← Nat.mod_add_mod]
  unfold nextIndex
  split
  · rw [Nat.mod_eq_of_lt (a := p % (cfg.queueSize + 1) + 1) (b := 256) (by omega),
      Nat.mod_eq_of_lt (a := p % (cfg.queueSize + 1) + 1) (by omega)]
  · have hlast : p % (cfg.queueSize + 1) = cfg.queueSize := by omega
    rw [hlast, Nat.mod_self]

/-- Positions less than a ring apart have different entries. -/
theorem slot_inj {n d p p' : Nat} (h1 : d ≤ p) (h2 : p < d + n) (h1' : d ≤ p') (h2' : p' < d + n)
    (h : p % n = p' % n) : p = p' :=
  Nat.mod_injOn_Ico d n (by simp [h1, h2]) (by simp [h1', h2']) h

/-! ## The invariant -/

/-- The entries between the positions `ended.length` and `accepted.length` hold what was accepted,
or wait for the call that fills them. -/
structure Inv (cfg : Config) (w : World) : Prop where
  ended_le : w.ended.length ≤ w.accepted.length
  room : w.accepted.length ≤ w.ended.length + cfg.queueSize
  start : w.queue.start = w.ended.length % (cfg.queueSize + 1)
  stop : w.queue.stop = w.accepted.length % (cfg.queueSize + 1)
  fits : ∀ e ∈ w.accepted, e.data.length ≤ cfg.eventSize
  calls : ∀ c ∈ w.calls, ∃ p, w.ended.length ≤ p ∧ w.accepted[p]? = some c.2.event ∧
    c.1 = p % (cfg.queueSize + 1)
  entries : ∀ p e, w.ended.length ≤ p → w.accepted[p]? = some e →
    (∃ c ∈ w.calls, c.1 = p % (cfg.queueSize + 1)) ∨
      entry cfg w.queue (p % (cfg.queueSize + 1)) = e
  started : w.started = w.accepted.take (w.ended.length + w.running.toNat)
  ended : w.ended = w.accepted.take w.ended.length
  running : w.running = true → w.ended.length < w.accepted.length

namespace Inv

theorem handled_le (h : Inv cfg w) :
    w.ended.length + w.running.toNat ≤ w.accepted.length := by
  have hrun := h.running
  cases hr : w.running with
  | false => exact h.ended_le
  | true => exact hrun hr

theorem full_iff (h : Inv cfg w) :
    queueFull cfg w.queue = true ↔ w.accepted.length = w.ended.length + cfg.queueSize := by
  have hroom := h.room
  have hle := h.ended_le
  rw [queueFull, decide_eq_true_eq, h.stop, h.start, nextIndex_mod,
    ← Nat.add_mod_right w.ended.length]
  constructor
  · intro heq
    have := slot_inj (d := w.ended.length + 1) (by omega) (by omega) (by omega) (by omega) heq
    omega
  · intro heq
    rw [heq, Nat.add_assoc]

theorem empty_iff (h : Inv cfg w) :
    queueEmpty w.queue = true ↔ w.accepted.length = w.ended.length := by
  have hroom := h.room
  have hle := h.ended_le
  rw [queueEmpty, decide_eq_true_eq, h.stop, h.start]
  constructor
  · exact slot_inj hle (by omega) (Nat.le_refl _) (by omega)
  · exact fun heq => by rw [heq]

theorem put_code (h : Inv cfg w) (r : Request) : (put cfg w r).1 =
    if cfg.eventSize < r.size then .invalidLength
    else if w.accepted.length = w.ended.length + cfg.queueSize then .noMem else .success := by
  unfold put
  by_cases hsize : r.size ≤ cfg.eventSize
  · rw [if_pos hsize, if_neg (Nat.not_lt.mpr hsize)]
    by_cases hfull : queueFull cfg w.queue = true
    · rw [if_pos hfull, if_pos (h.full_iff.mp hfull)]
    · rw [if_neg hfull, if_neg fun heq => hfull (h.full_iff.mpr heq)]
  · rw [if_neg hsize, if_pos (Nat.lt_of_not_le hsize)]

theorem space (h : Inv cfg w) : appSchedQueueSpaceGet cfg w.queue =
    cfg.queueSize - (w.accepted.length - w.ended.length) := by
  have hroom := h.room
  have hle := h.ended_le
  have hsmall := cfg.small
  obtain ⟨k, hk⟩ : ∃ k, w.accepted.length = w.ended.length + k :=
    ⟨_, (Nat.add_sub_cancel' hle).symm⟩
  have hkn : k < cfg.queueSize + 1 := by omega
  have hx : w.ended.length % (cfg.queueSize + 1) < cfg.queueSize + 1 :=
    Nat.mod_lt _ (Nat.succ_pos _)
  have hstop : w.accepted.length % (cfg.queueSize + 1) =
      if w.ended.length % (cfg.queueSize + 1) + k < cfg.queueSize + 1 then
        w.ended.length % (cfg.queueSize + 1) + k
      else w.ended.length % (cfg.queueSize + 1) + k - (cfg.queueSize + 1) := by
    rw [hk, ← Nat.mod_add_mod]
    split
    · exact Nat.mod_eq_of_lt (by assumption)
    · rw [Nat.mod_eq_sub_mod (by omega), Nat.mod_eq_of_lt (by omega)]
  unfold appSchedQueueSpaceGet
  rw [h.start, h.stop, hstop, hk, Nat.add_sub_cancel_left]
  generalize w.ended.length % (cfg.queueSize + 1) = x at hx ⊢
  dsimp only
  split <;> split <;> omega

/-- A call reserves the next entry. -/
theorem reserve (h : Inv cfg w) (hsize : r.size ≤ cfg.eventSize)
    (hfull : ¬ queueFull cfg w.queue = true) :
    Inv cfg { w with
      queue := { w.queue with stop := nextIndex cfg w.queue.stop }
      calls := (w.queue.stop, r) :: w.calls
      accepted := w.accepted ++ [r.event] } := by
  have hroom := h.room
  have hle := h.ended_le
  have hne : w.accepted.length ≠ w.ended.length + cfg.queueSize :=
    fun heq => hfull (h.full_iff.mpr heq)
  have hlen : (w.accepted ++ [r.event]).length = w.accepted.length + 1 := by
    rw [List.length_append, List.length_singleton]
  refine ⟨?_, ?_, h.start, ?_, ?_, ?_, ?_, ?_, ?_, fun hrun => ?_⟩ <;> simp only [hlen]
  · omega
  · omega
  · rw [h.stop, nextIndex_mod]
  · intro e he
    obtain he | he := List.mem_append.mp he
    · exact h.fits e he
    · rw [List.mem_singleton.mp he, ← r.stored_eq]
      exact Nat.le_trans r.stored_le hsize
  · intro c hc
    obtain rfl | hc := List.mem_cons.mp hc
    · exact ⟨w.accepted.length, hle, List.getElem?_concat_length, h.stop⟩
    · obtain ⟨p, hp, hget, hslot⟩ := h.calls c hc
      obtain ⟨hlt, -⟩ := List.getElem?_eq_some_iff.mp hget
      exact ⟨p, hp, (List.getElem?_append_left hlt).trans hget, hslot⟩
  · intro p e hp hget
    obtain ⟨hlt, -⟩ := List.getElem?_eq_some_iff.mp hget
    rw [hlen] at hlt
    obtain hold | hlast := Nat.lt_or_eq_of_le (Nat.le_of_lt_succ hlt)
    · rw [List.getElem?_append_left hold] at hget
      obtain ⟨c, hc, hslot⟩ | hentry := h.entries p e hp hget
      · exact .inl ⟨c, List.mem_cons_of_mem _ hc, hslot⟩
      · exact .inr hentry
    · exact .inl ⟨_, List.mem_cons_self, by rw [hlast]; exact h.stop⟩
  · rw [List.take_append_of_le_length h.handled_le]
    exact h.started
  · rw [List.take_append_of_le_length hle]
    exact h.ended
  · exact Nat.lt_succ_of_lt (h.running hrun)

theorem put (h : Inv cfg w) (r : Request) : Inv cfg (put cfg w r).2 := by
  unfold AppSched.put
  split
  · rename_i hsize
    split
    · exact h
    · rename_i hfull
      exact h.reserve hsize hfull
  · exact h

/-- The call that fills its entry leaves the other ones alone. -/
theorem fill {c : Nat × Request} {calls : List (Nat × Request)} (h : Inv cfg w)
    (hcalls : w.calls = c :: calls) :
    Inv cfg { w with queue := fill cfg c.1 c.2 w.queue, calls := calls } := by
  have hroom := h.room
  obtain ⟨p₀, hp₀, hget₀, hslot₀⟩ := h.calls c (hcalls ▸ List.mem_cons_self)
  have hfits : c.2.stored ≤ cfg.eventSize := by
    rw [c.2.stored_eq]
    exact h.fits _ (List.mem_of_getElem? hget₀)
  have hlt : ∀ {p : Nat} {e : Event}, w.accepted[p]? = some e →
      p < w.ended.length + (cfg.queueSize + 1) := by
    intro p e hp
    obtain ⟨hlt, -⟩ := List.getElem?_eq_some_iff.mp hp
    omega
  refine ⟨h.ended_le, hroom, h.start, h.stop, h.fits, fun c' hc' => ?_, fun p e hp hget => ?_,
    h.started, h.ended, h.running⟩
  · exact h.calls c' (hcalls ▸ List.mem_cons_of_mem _ hc')
  by_cases hslot : p % (cfg.queueSize + 1) = c.1
  · have hpos : p = p₀ := slot_inj hp (hlt hget) hp₀ (hlt hget₀) (hslot.trans hslot₀)
    rw [hpos, hget₀] at hget
    right
    show entry cfg (AppSched.fill cfg c.1 c.2 w.queue) (p % (cfg.queueSize + 1)) = e
    rw [hslot, entry_fill]
    exact Option.some.inj hget
  · obtain ⟨c', hc', hslot'⟩ | hentry := h.entries p e hp hget
    · rw [hcalls] at hc'
      obtain rfl | hc' := List.mem_cons.mp hc'
      · exact absurd hslot'.symm hslot
      · exact .inl ⟨c', hc', hslot'⟩
    · right
      have hsize : (w.queue.headers (p % (cfg.queueSize + 1))).size ≤ cfg.eventSize := by
        have := h.fits e (List.mem_of_getElem? hget)
        rw [← hentry] at this
        simpa [entry] using this
      show entry cfg (AppSched.fill cfg c.1 c.2 w.queue) (p % (cfg.queueSize + 1)) = e
      rw [entry_fill_other hslot hsize hfits]
      exact hentry

/-- With no call behind its critical region, the first entry is the next event. -/
theorem front (h : Inv cfg w) (hcalls : w.calls = []) (hlt : w.ended.length < w.accepted.length) :
    w.accepted[w.ended.length]? = some (entry cfg w.queue w.queue.start) := by
  have hget := List.getElem?_eq_getElem hlt
  obtain ⟨c, hc, -⟩ | hentry := h.entries _ _ (Nat.le_refl _) hget
  · rw [hcalls] at hc
    cases hc
  · rw [h.start, hentry]
    exact hget

theorem step (h : Inv cfg w) (e : Step) (hok : okb w e = true) : Inv cfg (step cfg w e) := by
  cases e with
  | put r => exact h.put r
  | fill =>
    unfold AppSched.step
    cases hcalls : w.calls with
    | nil => exact h
    | cons c calls => exact h.fill hcalls
  | dispatch =>
    simp only [okb, Bool.and_eq_true, List.isEmpty_iff, Bool.not_eq_true'] at hok
    obtain ⟨⟨hcalls, hrun⟩, hempty⟩ := hok
    have hlt : w.ended.length < w.accepted.length := by
      refine Nat.lt_of_le_of_ne h.ended_le fun heq => ?_
      rw [h.empty_iff.mpr heq.symm] at hempty
      cases hempty
    refine { h with started := ?_, running := fun _ => hlt }
    show w.started ++ [_] = w.accepted.take (w.ended.length + 1)
    rw [List.take_add_one, h.front hcalls hlt, h.started, hrun]
    rfl
  | finish =>
    simp only [okb, Bool.and_eq_true, List.isEmpty_iff] at hok
    obtain ⟨hcalls, hrun⟩ := hok
    have hlt := h.running hrun
    have hroom := h.room
    have hended : w.ended ++ [entry cfg w.queue w.queue.start] =
        w.accepted.take (w.ended.length + 1) := by
      rw [List.take_add_one, h.front hcalls hlt, ← h.ended]
      rfl
    have hlen : (w.ended ++ [entry cfg w.queue w.queue.start]).length = w.ended.length + 1 := by
      rw [List.length_append, List.length_singleton]
    refine ⟨?_, ?_, ?_, h.stop, h.fits, ?_, ?_, ?_, ?_, fun hr => by cases hr⟩ <;>
      simp only [AppSched.step, hlen]
    · exact hlt
    · omega
    · rw [h.start, nextIndex_mod]
    · intro c hc
      rw [hcalls] at hc
      cases hc
    · exact fun p e hp hget => h.entries p e (by omega) hget
    · rw [h.started, hrun]
      rfl
    · exact hended

end Inv

/-! ## Runs -/

theorem inv_init (headers : Nat → Header) (data : Mem) :
    Inv cfg { queue := appSchedInit headers data } where
  ended_le := Nat.le_refl _
  room := Nat.zero_le _
  start := (Nat.zero_mod _).symm
  stop := (Nat.zero_mod _).symm
  fits := fun e he => by cases he
  calls := fun c hc => by cases hc
  entries := fun p e _ hget => by simp at hget
  started := rfl
  ended := rfl
  running := fun hrun => by cases hrun

/-- Every handler is called with what was put, in the order of the reservations, and its event is
still there when it returns; the answer of the next call and the space follow from the numbers. -/
structure Exact (cfg : Config) (w : World) : Prop where
  started : w.started <+: w.accepted
  ended : w.ended <+: w.accepted
  handled : w.started.length = w.ended.length + w.running.toNat
  bounded : w.accepted.length ≤ w.ended.length + cfg.queueSize
  answer : ∀ r, (put cfg w r).1 =
    if cfg.eventSize < r.size then .invalidLength
    else if w.accepted.length = w.ended.length + cfg.queueSize then .noMem else .success
  space : appSchedQueueSpaceGet cfg w.queue =
    cfg.queueSize - (w.accepted.length - w.ended.length)
  drained : queueEmpty w.queue = true → w.ended = w.accepted

/-- In every run of puts, nested at any depth and from inside of handlers, and of the main loop. -/
theorem scheduler_exact {headers : Nat → Header} {data : Mem} {es : List Step}
    (h : Reach (step cfg) (fun w e => okb w e = true) { queue := appSchedInit headers data } es w) :
    Exact cfg w := by
  have hinv : Inv cfg w := h.invariant (inv_init headers data) fun _ e hw hok => hw.step e hok
  refine ⟨?_, ?_, ?_, hinv.room, hinv.put_code, hinv.space, fun hempty => ?_⟩
  · rw [hinv.started]
    exact List.take_prefix _ _
  · rw [hinv.ended]
    exact List.take_prefix _ _
  · rw [hinv.started, List.length_take, Nat.min_eq_left hinv.handled_le]
  · rw [hinv.ended, ← hinv.empty_iff.mp hempty, List.take_length]

def twoEntries : Config := ⟨2, 2, by decide⟩

/-- An interrupt puts an event behind the reservation of another one, and a handler a third. -/
def nestedRun : List Step :=
  [.put ⟨1, 2, some fun a => BitVec.ofNat 8 (a + 7)⟩, .put ⟨2, 0, none⟩, .fill, .fill, .dispatch,
    .finish, .dispatch, .put ⟨3, 1, some fun _ => 5⟩, .fill, .finish, .dispatch]

theorem scheduler_exact_nestedRun : Exact twoEntries (nestedRun.foldl (step twoEntries)
    { queue := appSchedInit (fun _ => ⟨0, 0⟩) fun _ => 0 }) :=
  scheduler_exact (Reach.of_allowed okb (fun _ _ h => h) (by decide))

end OtaFix.AppSched

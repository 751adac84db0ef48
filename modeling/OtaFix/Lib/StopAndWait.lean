import Mathlib.Data.List.Basic
import Mathlib.Data.List.Induction
import Mathlib.Data.List.TakeDrop
import Mathlib.Data.Option.Basic
import Mathlib.Logic.Relation

/-!
# Stop-and-wait

A sender repeats a packet until it is acknowledged or gives up, and only then takes the next one.
A receiver takes a packet with the number that it expects, and answers with the number that it
expects next. The lines between them keep the order and lose. Numbers are compared modulo `N`.

Here numbers are counts that do not wrap: a packet on the line is the index of its write, and its
number is the count of the writes before it that succeeded (`turn`); an acknowledgement on the
line is the count of the packets that the receiver had taken.
-/

namespace Lib

structure StopAndWait (α : Type*) where
  written : List α
  /-- How the writes ended, but for the last one while it waits. -/
  results : List Bool
  waiting : Bool
  got : List α
  data : List Nat
  acks : List Nat

namespace StopAndWait

variable {α : Type*} {N : Nat} {s s' : StopAndWait α}

def start : StopAndWait α := ⟨[], [], false, [], [], []⟩

def acked (s : StopAndWait α) : Nat := s.results.count true

/-- The number of write `w`. -/
def turn (results : List Bool) (w : Nat) : Nat := (results.take w).count true

inductive Step (N : Nat) : StopAndWait α → StopAndWait α → Prop where
  | write (s : StopAndWait α) (a : α) : s.waiting = false →
      Step N s { s with written := s.written ++ [a], waiting := true }
  | send (s : StopAndWait α) : s.waiting = true →
      Step N s { s with data := s.data ++ [s.written.length - 1] }
  | loseData (s : StopAndWait α) (w : Nat) (ws : List Nat) : s.data = w :: ws →
      Step N s { s with data := ws }
  | loseAck (s : StopAndWait α) (k : Nat) (ks : List Nat) : s.acks = k :: ks →
      Step N s { s with acks := ks }
  | succeed (s : StopAndWait α) (k : Nat) (ks : List Nat) : s.waiting = true → s.acks = k :: ks →
      k % N = (s.acked + 1) % N →
      Step N s { s with results := s.results ++ [true], waiting := false, acks := ks }
  | fail (s : StopAndWait α) : s.waiting = true →
      Step N s { s with results := s.results ++ [false], waiting := false }
  | take (s : StopAndWait α) (w : Nat) (ws : List Nat) (a : α) : s.data = w :: ws →
      turn s.results w % N = s.got.length % N → s.written[w]? = some a →
      Step N s { s with got := s.got ++ [a], data := ws }
  | ack (s : StopAndWait α) : Step N s { s with acks := s.acks ++ [s.got.length] }
  | tear (s : StopAndWait α) : Step N s { s with acks := s.acks.dropLast }

/-! ## Numbers -/

theorem turn_le (results : List Bool) (w : Nat) : turn results w ≤ results.count true :=
  (List.take_sublist w results).count_le true

theorem turn_mono (results : List Bool) {v w : Nat} (h : v ≤ w) :
    turn results v ≤ turn results w :=
  (List.take_sublist_take_left h).count_le true

theorem turn_append {results : List Bool} {w : Nat} (h : w ≤ results.length) (b : Bool) :
    turn (results ++ [b]) w = turn results w := by
  rw [turn, List.take_append_of_le_length h, turn]

theorem turn_length (results : List Bool) : turn results results.length = results.count true := by
  rw [turn, List.take_length]

theorem turn_of_all {results : List Bool} (h : ∀ b ∈ results, b = true) {w : Nat}
    (hw : w ≤ results.length) : turn results w = w := by
  have hall : ∀ b ∈ results.take w, true = b := fun b hb =>
    (h b ((List.take_sublist w results).subset hb)).symm
  rw [turn, List.count_eq_length.mpr hall, List.length_take_of_le hw]

/-! ## The invariant -/

/-- What the receiver has are the writes `idx`, one of each number. -/
structure Origin (s : StopAndWait α) (idx : List Nat) : Prop where
  got : s.got.map some = idx.map fun w => s.written[w]?
  turns : idx.map (turn s.results) = List.range idx.length

structure Inv (s : StopAndWait α) : Prop where
  ended : s.written.length = s.results.length + s.waiting.toNat
  low : s.acked ≤ s.got.length
  high : s.got.length ≤ s.acked + 1
  origin : ∃ idx, Origin s idx
  data : ∀ w ∈ s.data, w < s.written.length ∧ s.got.length ≤ turn s.results w + 1
  dataSorted : s.data.Pairwise (· ≤ ·)
  acks : ∀ k ∈ s.acks, s.acked ≤ k ∧ k ≤ s.got.length
  acksSorted : s.acks.Pairwise (· ≤ ·)

theorem Origin.length {idx : List Nat} (h : Origin s idx) : s.got.length = idx.length := by
  have := congrArg List.length h.got
  rwa [List.length_map, List.length_map] at this

theorem Origin.lt {idx : List Nat} (h : Origin s idx) {w : Nat} (hw : w ∈ idx) :
    w < s.written.length := by
  have hmem : s.written[w]? ∈ s.got.map some := h.got ▸ List.mem_map_of_mem hw
  obtain ⟨a, -, ha⟩ := List.mem_map.mp hmem
  exact (List.getElem?_eq_some_iff.mp ha.symm).1

/-- Neither a further write nor the end of one changes what the receiver has. -/
theorem Origin.grow {idx : List Nat} (h : Origin s idx) (hgot : s'.got = s.got)
    (hwritten : ∀ w < s.written.length, s'.written[w]? = s.written[w]?)
    (hturn : ∀ w < s.written.length, turn s'.results w = turn s.results w) : Origin s' idx where
  got := by
    rw [hgot, h.got]
    exact List.map_congr_left fun w hw => (hwritten w (h.lt hw)).symm
  turns := by
    rw [← h.turns]
    exact List.map_congr_left fun w hw => hturn w (h.lt hw)

theorem inv_start : Inv (start : StopAndWait α) where
  ended := rfl
  low := Nat.le_refl _
  high := Nat.zero_le _
  origin := ⟨[], rfl, rfl⟩
  data w hw := by cases hw
  dataSorted := .nil
  acks k hk := by cases hk
  acksSorted := .nil

theorem eq_of_mod {a b : Nat} (hN : 2 ≤ N) (h : a % N = b % N) (hab : a ≤ b) (hba : b ≤ a + 1) :
    a = b := by
  by_contra hne
  have hb : b = a + 1 := by omega
  rw [hb, Nat.add_mod, Nat.mod_eq_of_lt (show 1 < N by omega)] at h
  have hlt := Nat.mod_lt a (show 0 < N by omega)
  obtain hend | hend := Nat.lt_or_ge (a % N + 1) N
  · rw [Nat.mod_eq_of_lt hend] at h
    omega
  · rw [show a % N + 1 = N by omega, Nat.mod_self] at h
    omega

theorem Inv.ended_idle (h : Inv s) (hw : s.waiting = false) :
    s.written.length = s.results.length := by
  rw [h.ended, hw]
  rfl

theorem Inv.ended_waiting (h : Inv s) (hw : s.waiting = true) :
    s.written.length = s.results.length + 1 := by
  rw [h.ended, hw]
  rfl

theorem Inv.index_le (h : Inv s) {w : Nat} (hw : w < s.written.length) : w ≤ s.results.length := by
  cases hwait : s.waiting with
  | false => exact Nat.le_of_lt (h.ended_idle hwait ▸ hw)
  | true =>
    rw [h.ended_waiting hwait] at hw
    exact Nat.le_of_lt_succ hw

theorem Inv.step (h : Inv s) (hN : 2 ≤ N) (hs : Step N s s') : Inv s' := by
  obtain ⟨idx, hidx⟩ := h.origin
  cases hs with
  | write a hw =>
    have hlen := h.ended_idle hw
    have hkeep : ∀ w < s.written.length, (s.written ++ [a])[w]? = s.written[w]? := fun w hw =>
      List.getElem?_append_left hw
    refine ⟨?_, h.low, h.high, ⟨idx, hidx.grow rfl hkeep fun _ _ => rfl⟩, fun w hw => ?_,
      h.dataSorted, h.acks, h.acksSorted⟩
    · show (s.written ++ [a]).length = s.results.length + 1
      rw [List.length_append, hlen]
      rfl
    · obtain ⟨hlt, hturn⟩ := h.data w hw
      refine ⟨?_, hturn⟩
      show w < (s.written ++ [a]).length
      rw [List.length_append]
      exact Nat.lt_add_right 1 hlt
  | send hw =>
    have hlen := h.ended_waiting hw
    have hlast : s.written.length - 1 = s.results.length := by omega
    refine ⟨h.ended, h.low, h.high, ⟨idx, hidx.grow rfl (fun _ _ => rfl) fun _ _ => rfl⟩,
      fun w hw => ?_, ?_, h.acks, h.acksSorted⟩
    · obtain hw | hw := List.mem_append.mp hw
      · exact h.data w hw
      · rw [List.mem_singleton.mp hw, hlast]
        refine ⟨by show _ < s.written.length; omega, ?_⟩
        show s.got.length ≤ turn s.results _ + 1
        rw [turn_length]
        exact h.high
    · refine List.pairwise_append.mpr ⟨h.dataSorted, List.pairwise_singleton _ _, ?_⟩
      intro v hv w hw
      rw [List.mem_singleton.mp hw]
      exact Nat.le_sub_one_of_lt (h.data v hv).1
  | loseData w ws hd =>
    refine ⟨h.ended, h.low, h.high, ⟨idx, hidx.grow rfl (fun _ _ => rfl) fun _ _ => rfl⟩,
      fun v hv => h.data v (hd ▸ List.mem_cons_of_mem _ hv), ?_, h.acks, h.acksSorted⟩
    exact (List.pairwise_cons.mp (hd ▸ h.dataSorted)).2
  | loseAck k ks hk =>
    refine ⟨h.ended, h.low, h.high, ⟨idx, hidx.grow rfl (fun _ _ => rfl) fun _ _ => rfl⟩, h.data,
      h.dataSorted, fun j hj => h.acks j (hk ▸ List.mem_cons_of_mem _ hj), ?_⟩
    exact (List.pairwise_cons.mp (hk ▸ h.acksSorted)).2
  | succeed k ks hw hk hmod =>
    have hlen := h.ended_waiting hw
    obtain ⟨hlow, hhigh⟩ := h.acks k (hk ▸ List.mem_cons_self)
    have hbound := h.high
    obtain ⟨hfirst, hsorted⟩ := List.pairwise_cons.mp (hk ▸ h.acksSorted)
    have hkn : k = s.acked + 1 := eq_of_mod hN hmod (by omega) (by omega)
    have hturn : ∀ w < s.written.length, turn (s.results ++ [true]) w = turn s.results w :=
      fun w hw => turn_append (by omega) true
    have hacked : (s.results ++ [true]).count true = s.acked + 1 := by
      rw [List.count_append]
      rfl
    refine ⟨?_, ?_, ?_, ⟨idx, hidx.grow rfl (fun _ _ => rfl) hturn⟩, fun w hw => ?_, h.dataSorted,
      fun j hj => ?_, hsorted⟩
    · show s.written.length = (s.results ++ [true]).length + 0
      rw [List.length_append, hlen]
      rfl
    · show (s.results ++ [true]).count true ≤ s.got.length
      omega
    · show s.got.length ≤ (s.results ++ [true]).count true + 1
      omega
    · obtain ⟨hlt, ht⟩ := h.data w hw
      exact ⟨hlt, (hturn w hlt).symm ▸ ht⟩
    · have := hfirst j hj
      refine ⟨?_, (h.acks j (hk ▸ List.mem_cons_of_mem _ hj)).2⟩
      show (s.results ++ [true]).count true ≤ j
      omega
  | fail hw =>
    have hlen := h.ended_waiting hw
    have hturn : ∀ w < s.written.length, turn (s.results ++ [false]) w = turn s.results w :=
      fun w hw => turn_append (by omega) false
    have hacked : (s.results ++ [false]).count true = s.acked := by
      rw [List.count_append]
      rfl
    refine ⟨?_, ?_, ?_, ⟨idx, hidx.grow rfl (fun _ _ => rfl) hturn⟩, fun w hw => ?_, h.dataSorted,
      fun j hj => ?_, h.acksSorted⟩
    · show s.written.length = (s.results ++ [false]).length + 0
      rw [List.length_append, hlen]
      rfl
    · show (s.results ++ [false]).count true ≤ s.got.length
      rw [hacked]
      exact h.low
    · show s.got.length ≤ (s.results ++ [false]).count true + 1
      rw [hacked]
      exact h.high
    · obtain ⟨hlt, ht⟩ := h.data w hw
      exact ⟨hlt, (hturn w hlt).symm ▸ ht⟩
    · show (s.results ++ [false]).count true ≤ j ∧ j ≤ s.got.length
      rw [hacked]
      exact h.acks j hj
  | take w ws a hd hmod ha =>
    obtain ⟨hlt, hturn⟩ := h.data w (hd ▸ List.mem_cons_self)
    obtain ⟨hfirst, hsorted⟩ := List.pairwise_cons.mp (hd ▸ h.dataSorted)
    have hle := turn_le s.results w
    have hlow : s.results.count true ≤ s.got.length := h.low
    have heq : turn s.results w = s.got.length := eq_of_mod hN hmod (by omega) hturn
    have hgrown : (s.got ++ [a]).length = s.got.length + 1 := List.length_append
    refine ⟨h.ended, ?_, ?_, ⟨idx ++ [w], ?_, ?_⟩, fun v hv => ?_, hsorted, fun k hk => ?_,
      h.acksSorted⟩
    · show s.results.count true ≤ (s.got ++ [a]).length
      omega
    · show (s.got ++ [a]).length ≤ s.results.count true + 1
      omega
    · show (s.got ++ [a]).map some = _
      rw [List.map_append, List.map_append, hidx.got]
      exact congrArg (_ ++ [·]) ha.symm
    · show (idx ++ [w]).map (turn s.results) = _
      rw [List.map_append, hidx.turns, List.length_append, List.length_singleton, List.range_succ]
      exact congrArg (_ ++ [·]) (heq.trans hidx.length)
    · have hv' := h.data v (hd ▸ List.mem_cons_of_mem _ hv)
      refine ⟨hv'.1, ?_⟩
      show (s.got ++ [a]).length ≤ turn s.results v + 1
      have := turn_mono s.results (hfirst v hv)
      omega
    · have := h.acks k hk
      refine ⟨this.1, ?_⟩
      show k ≤ (s.got ++ [a]).length
      omega
  | ack =>
    refine ⟨h.ended, h.low, h.high, ⟨idx, hidx.grow rfl (fun _ _ => rfl) fun _ _ => rfl⟩, h.data,
      h.dataSorted, fun k hk => ?_, ?_⟩
    · obtain hk | hk := List.mem_append.mp hk
      · exact h.acks k hk
      · rw [List.mem_singleton.mp hk]
        exact ⟨h.low, Nat.le_refl _⟩
    · refine List.pairwise_append.mpr ⟨h.acksSorted, List.pairwise_singleton _ _, ?_⟩
      intro j hj k hk
      rw [List.mem_singleton.mp hk]
      exact (h.acks j hj).2
  | tear =>
    have hsub := List.dropLast_sublist s.acks
    exact ⟨h.ended, h.low, h.high, ⟨idx, hidx.grow rfl (fun _ _ => rfl) fun _ _ => rfl⟩, h.data,
      h.dataSorted, fun k hk => h.acks k (hsub.subset hk), h.acksSorted.sublist hsub⟩

/-! ## Safety -/

theorem sublist_of_indices {got written : List α} {idx : List Nat} (hidx : idx.Pairwise (· < ·)) :
    got.map some = idx.map (fun w => written[w]?) → ∀ {n : Nat}, (∀ w ∈ idx, w < n) →
      got.Sublist (written.take n) := by
  induction idx using List.reverseRecOn generalizing got with
  | nil =>
    intro h n _
    rw [List.map_eq_nil_iff.mp h]
    exact List.nil_sublist _
  | append_singleton idx w ih =>
    intro h n hn
    obtain ⟨hpre, -, hlast⟩ := List.pairwise_append.mp hidx
    rw [List.map_append, List.map_singleton] at h
    obtain ⟨g, l, rfl, hg, hl⟩ := List.map_eq_append_iff.mp h
    obtain ⟨a, rfl, ha⟩ := List.map_eq_singleton_iff.mp hl
    have hsub := ih hpre hg (n := w) fun v hv => hlast v hv w List.mem_cons_self
    have hw : written.take (w + 1) = written.take w ++ [a] := by
      rw [List.take_add_one, ← ha]
      rfl
    refine List.Sublist.trans ?_ (List.take_sublist_take_left (hn w (by simp)))
    rw [hw]
    exact hsub.append (List.Sublist.refl _)

theorem map_getElem?_range {written : List α} {n : Nat} (h : ∀ w < n, w < written.length) :
    (List.range n).map (fun w => written[w]?) = (written.take n).map some := by
  refine List.ext_getElem? fun w => ?_
  rw [List.getElem?_map, List.getElem?_map]
  obtain hw | hw := Nat.lt_or_ge w n
  · rw [List.getElem?_range hw, List.getElem?_take_of_lt hw, Option.map_some,
      List.getElem?_eq_getElem (h w hw), Option.map_some]
  · rw [List.getElem?_eq_none (by rw [List.length_range]; exact hw),
      List.getElem?_eq_none (Nat.le_trans (List.length_take_le n written) hw)]
    rfl

/-- The packets of the receiver are among those that were written, in order and none twice. While
no write has failed they are a first part of them, and every write that succeeded is in it. -/
theorem Inv.safe (h : Inv s) : s.got.Sublist s.written ∧ ((∀ b ∈ s.results, b = true) →
    s.got = s.written.take s.got.length ∧ s.results.length ≤ s.got.length) := by
  obtain ⟨idx, hidx⟩ := h.origin
  refine ⟨?_, fun hall => ⟨?_, ?_⟩⟩
  · have hsorted : idx.Pairwise (· < ·) := by
      have hrange : (idx.map (turn s.results)).Pairwise (· < ·) :=
        hidx.turns ▸ List.pairwise_lt_range
      refine (List.pairwise_map.mp hrange).imp fun hlt => ?_
      exact Nat.lt_of_not_le fun hle => Nat.not_le.mpr hlt (turn_mono _ hle)
    have := sublist_of_indices hsorted hidx.got fun w hw => hidx.lt hw
    rwa [List.take_length] at this
  · have hturn : idx = List.range idx.length := by
      rw [← hidx.turns]
      refine (List.map_id idx).symm.trans (List.map_congr_left fun w hw => ?_)
      exact (turn_of_all hall (h.index_le (hidx.lt hw))).symm
    have hgot := hidx.got
    rw [hturn] at hgot
    refine List.map_injective_iff.mpr (Option.some_injective α) ?_
    rw [hgot, hidx.length]
    exact map_getElem?_range fun w hw => hidx.lt (hturn ▸ List.mem_range.mpr hw)
  · have hacked : s.results.count true = s.results.length :=
      List.count_eq_length.mpr fun b hb => (hall b hb).symm
    exact hacked ▸ h.low

theorem Inv.of_run (hN : 2 ≤ N) (h : Relation.ReflTransGen (Step N) start s) : Inv s := by
  induction h with
  | refl => exact inv_start
  | tail _ hs ih => exact ih.step hN hs

end StopAndWait

end Lib

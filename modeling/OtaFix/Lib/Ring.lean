import Mathlib.Data.List.Basic

/-!
# Ring buffers

A fixed array of `n` slots with a read index and a count, as C code keeps a
queue. The bounds are fields, so every index a ring computes is inside the
array. `toList` is the queue it stands for; `push` and `pop` are its two
operations on it, and slots outside the window are unrestricted.
-/

namespace Lib

structure Ring (α : Type*) (n : Nat) where
  slots : Nat → α
  head : Nat
  count : Nat
  head_lt : head < n
  count_le : count ≤ n

namespace Ring

variable {α : Type*} {n : Nat} {r : Ring α n}

/-- The slot `i` places behind the head. -/
def index (r : Ring α n) (i : Nat) : Nat := (r.head + i) % n

def empty (hn : 0 < n) (slots : Nat → α) : Ring α n := ⟨slots, 0, 0, hn, Nat.zero_le n⟩

/-- Forget the contents; the slots keep their bytes. -/
def clear (r : Ring α n) : Ring α n :=
  ⟨r.slots, 0, 0, Nat.lt_of_le_of_lt (Nat.zero_le _) r.head_lt, Nat.zero_le n⟩

/-- Store behind the last element; a full ring is left alone. -/
def push (r : Ring α n) (a : α) : Ring α n :=
  if h : r.count < n then
    ⟨fun k => if k = r.index r.count then a else r.slots k, r.head, r.count + 1, r.head_lt, h⟩
  else r

/-- The element at the head. -/
def front (r : Ring α n) : α := r.slots r.head

/-- Step over the head. -/
def pop (r : Ring α n) : Ring α n :=
  ⟨r.slots, (r.head + 1) % n, r.count - 1,
    Nat.mod_lt _ (Nat.lt_of_le_of_lt (Nat.zero_le _) r.head_lt),
    Nat.le_trans (Nat.sub_le _ _) r.count_le⟩

/-- Rewrite the head in place. -/
def setFront (r : Ring α n) (a : α) : Ring α n :=
  { r with slots := fun k => if k = r.head then a else r.slots k }

/-- Give up the last element; its slot becomes `a`. -/
def dropBack (r : Ring α n) (a : α) : Ring α n :=
  ⟨fun k => if k = r.index (r.count - 1) then a else r.slots k, r.head, r.count - 1, r.head_lt,
    Nat.le_trans (Nat.sub_le _ _) r.count_le⟩

/-- The queue the ring stands for. -/
def toList (r : Ring α n) : List α := (List.range r.count).map fun i => r.slots (r.index i)

@[simp] theorem toList_length (r : Ring α n) : r.toList.length = r.count := by simp [toList]

theorem index_zero (r : Ring α n) : r.index 0 = r.head := Nat.mod_eq_of_lt r.head_lt

/-- Distinct places of the window are distinct slots. -/
theorem index_inj {i j : Nat} (hi : i < n) (hj : j < n) (h : r.index i = r.index j) : i = j := by
  have hh := r.head_lt
  have wrap : ∀ k, k < n → r.index k = if r.head + k < n then r.head + k else r.head + k - n := by
    intro k hk
    unfold index
    split
    · exact Nat.mod_eq_of_lt (by assumption)
    · rw [Nat.mod_eq_sub_mod (by omega), Nat.mod_eq_of_lt (by omega)]
  rw [wrap i hi, wrap j hj] at h
  split at h <;> split at h <;> omega

@[simp] theorem toList_empty (hn : 0 < n) (slots : Nat → α) : (empty hn slots).toList = [] := rfl

@[simp] theorem toList_clear (r : Ring α n) : r.clear.toList = [] := rfl

@[simp] theorem count_clear (r : Ring α n) : r.clear.count = 0 := rfl

theorem toList_eq_nil : r.toList = [] ↔ r.count = 0 := by
  rw [← List.length_eq_zero_iff, toList_length]

theorem count_push (h : r.count < n) (a : α) : (r.push a).count = r.count + 1 := by
  simp [push, h]

theorem toList_push (h : r.count < n) (a : α) : (r.push a).toList = r.toList ++ [a] := by
  simp only [push, h, dif_pos, toList, List.range_succ, List.map_append, List.map_cons,
    List.map_nil]
  congr 1
  · refine List.map_congr_left fun i hi => ?_
    rw [List.mem_range] at hi
    have hne : r.index i ≠ r.index r.count := fun he => by
      have := index_inj (by omega) h he
      omega
    exact if_neg hne
  · exact congrArg (fun x => [x]) (if_pos rfl)

theorem toList_eq_front_cons (h : 0 < r.count) : r.toList = r.front :: r.pop.toList := by
  obtain ⟨c, hc⟩ : ∃ c, r.count = c + 1 := ⟨r.count - 1, by omega⟩
  have hpop : r.pop.count = c := by simp [pop, hc]
  simp only [toList, hc, hpop, List.range_succ_eq_map, List.map_cons, List.map_map]
  congr 1
  · rw [index_zero]; rfl
  · refine List.map_congr_left fun i _ => ?_
    simp only [Function.comp_apply, index, pop, Nat.mod_add_mod]
    congr 2
    omega

theorem front_eq {a : α} {l : List α} (h : r.toList = a :: l) : r.front = a := by
  have hpos : 0 < r.count := by
    rw [← toList_length, h]
    exact Nat.succ_pos _
  rw [toList_eq_front_cons hpos] at h
  exact (List.cons.inj h).1

theorem head_push (r : Ring α n) (a : α) : (r.push a).head = r.head := by
  unfold push
  split <;> rfl

/-- A push writes at most one slot. -/
theorem slots_push (r : Ring α n) (a : α) (i : Nat) :
    (r.push a).slots i = r.slots i ∨ (r.push a).slots i = a := by
  unfold push
  split
  · dsimp only
    split
    · exact .inr rfl
    · exact .inl rfl
  · exact .inl rfl

theorem front_push (hpos : 0 < r.count) (a : α) : (r.push a).front = r.front := by
  by_cases h : r.count < n
  · refine front_eq (l := r.pop.toList ++ [a]) ?_
    rw [toList_push h, toList_eq_front_cons hpos]
    rfl
  · rw [push, dif_neg h]

theorem count_pop (r : Ring α n) : r.pop.count = r.count - 1 := rfl

/-- What was pushed is given up. -/
theorem toList_dropBack_push (h : r.count < n) (a b : α) :
    ((r.push a).dropBack b).toList = r.toList := by
  have hpush : r.push a = ⟨fun k => if k = r.index r.count then a else r.slots k, r.head,
      r.count + 1, r.head_lt, h⟩ := by
    unfold push
    rw [dif_pos h]
  rw [hpush]
  refine List.map_congr_left fun i hi => ?_
  have hlt : i < r.count := List.mem_range.mp hi
  have hne : r.index i ≠ r.index r.count := fun he => by
    have := index_inj (by omega) h he
    omega
  exact (if_neg hne).trans (if_neg hne)

/-- A popped slot is outside the window. -/
theorem toList_pop_setFront (h : 0 < r.count) (a : α) :
    (r.setFront a).pop.toList = r.pop.toList := by
  refine List.map_congr_left fun i hi => ?_
  have hlt : i < r.count - 1 := List.mem_range.mp hi
  have hcount := r.count_le
  have hindex : ∀ r' : Ring α n, r'.head = (r.head + 1) % n → r'.index i = r.index (i + 1) := by
    intro r' hr'
    unfold index
    rw [hr', Nat.mod_add_mod, Nat.add_assoc, Nat.add_comm 1 i]
  have hne : r.index (i + 1) ≠ r.head := fun he => by
    rw [← index_zero r] at he
    have := index_inj (by omega) (by omega) he
    omega
  change (if (r.setFront a).pop.index i = r.head then a else r.slots ((r.setFront a).pop.index i)) =
    r.slots (r.pop.index i)
  rw [hindex (r.setFront a).pop rfl, hindex r.pop rfl, if_neg hne]

end Ring

end Lib

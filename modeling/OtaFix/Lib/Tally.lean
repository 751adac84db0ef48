import Mathlib.Data.List.Nodup

/-!
# Scans for the only mark

A scan counts the marks it meets and gives up at the second one, or at one that is not good.
It ends with a count of one exactly if there is one mark and that mark is good.
-/

namespace Lib

/-- One candidate of the scan: the count after it, or `none` to give up. -/
def tally (p good : Nat → Prop) [DecidablePred p] [DecidablePred good] (n i : Nat) : Option Nat :=
  if p i then if 0 < n ∨ ¬ good i then none else some (n + 1) else some n

/-- Below `n` there is one mark, and it is good. -/
def OneGood (p good : Nat → Prop) (n : Nat) : Prop :=
  ∃ k < n, (∀ x < n, p x ↔ x = k) ∧ good k

theorem filter_one {l : List Nat} {p : Nat → Bool} {o : Nat} (hnodup : l.Nodup) (hmem : o ∈ l)
    (h : ∀ x ∈ l, p x = true ↔ x = o) : l.filter p = [o] := by
  have hsame : l.filter p = l.filter (· == o) := by
    apply List.filter_congr
    intro x hx
    rw [Bool.eq_iff_iff, h x hx, beq_iff_eq]
  rw [hsame, List.filter_beq, List.count_eq_one_of_mem hnodup hmem]
  rfl

section Tally

variable {p good : Nat → Prop} [DecidablePred p] [DecidablePred good] {n c : Nat}

theorem tally_of_not {i : Nat} (h : ¬ p i) : tally p good c i = some c := if_neg h

/-- A program's own test for a mark, and its own test for giving up. -/
theorem ite_eq_map_tally {α : Type} {f : Nat → α} {q bad : Prop} [Decidable q] [Decidable bad]
    {i : Nat} {next stay : α} (hnext : next = f (c + 1)) (hstay : stay = f c) (hmark : q ↔ p i)
    (hbad : bad ↔ 0 < c ∨ ¬ good i) :
    (if q then if bad then none else some next else some stay) = (tally p good c i).map f := by
  subst hnext hstay
  unfold tally
  by_cases hp : p i
  · rw [if_pos hp, if_pos (hmark.2 hp)]
    by_cases hstop : 0 < c ∨ ¬ good i
    · rw [if_pos hstop, if_pos (hbad.2 hstop)]
      rfl
    · rw [if_neg hstop, if_neg (mt hbad.1 hstop)]
      rfl
  · rw [if_neg hp, if_neg (mt hmark.1 hp)]
    rfl

theorem foldlM_tally_succ :
    (List.range (n + 1)).foldlM (tally p good) 0 =
      ((List.range n).foldlM (tally p good) 0).bind fun c => tally p good c n := by
  rw [List.range_succ, List.foldlM_append]
  simp only [List.foldlM_cons, List.foldlM_nil, Option.bind_eq_bind, Option.pure_def]
  congr 1
  funext c
  cases tally p good c n <;> rfl

theorem tally_eq_zero {i : Nat} : tally p good c i = some 0 ↔ c = 0 ∧ ¬ p i := by
  unfold tally
  by_cases hp : p i
  · rw [if_pos hp]
    split <;> simp [hp]
  · rw [if_neg hp]
    simp [hp]

theorem tally_eq_one {i : Nat} :
    tally p good c i = some 1 ↔ (c = 0 ∧ p i ∧ good i) ∨ (c = 1 ∧ ¬ p i) := by
  unfold tally
  by_cases hp : p i
  · rw [if_pos hp]
    by_cases hbad : 0 < c ∨ ¬ good i
    · rw [if_pos hbad]
      simp only [reduceCtorEq, false_iff]
      rintro (⟨rfl, -, hgood⟩ | ⟨-, hnot⟩)
      · exact hbad.elim (Nat.lt_irrefl 0) (absurd hgood)
      · exact hnot hp
    · rw [if_neg hbad]
      rw [not_or, not_not] at hbad
      have hzero : c = 0 := by omega
      simp [hzero, hp, hbad.2]
  · rw [if_neg hp]
    simp [hp]

theorem foldlM_tally_zero :
    (List.range n).foldlM (tally p good) 0 = some 0 ↔ ∀ x < n, ¬ p x := by
  induction n with
  | zero => simp
  | succ n ih =>
    rw [foldlM_tally_succ, Option.bind_eq_some_iff]
    constructor
    · rintro ⟨c, hfold, hlast⟩ x hx
      obtain ⟨rfl, hnot⟩ := tally_eq_zero.1 hlast
      rcases Nat.lt_succ_iff_lt_or_eq.1 hx with hbefore | rfl
      · exact ih.1 hfold x hbefore
      · exact hnot
    · intro h
      have hfold := ih.2 fun x hx => h x (Nat.lt_succ_of_lt hx)
      exact ⟨0, hfold, tally_eq_zero.2 ⟨rfl, h n (Nat.lt_succ_self n)⟩⟩

theorem foldlM_tally_one :
    (List.range n).foldlM (tally p good) 0 = some 1 ↔ OneGood p good n := by
  unfold OneGood
  induction n with
  | zero => simp
  | succ n ih =>
    rw [foldlM_tally_succ, Option.bind_eq_some_iff]
    constructor
    · rintro ⟨c, hfold, hlast⟩
      rcases tally_eq_one.1 hlast with ⟨rfl, hp, hgood⟩ | ⟨rfl, hnot⟩
      · refine ⟨n, Nat.lt_succ_self n, ?_, hgood⟩
        intro x hx
        constructor
        · intro hpx
          by_contra hne
          exact foldlM_tally_zero.1 hfold x (by omega) hpx
        · rintro rfl
          exact hp
      · obtain ⟨k, hk, hone, hgood⟩ := ih.1 hfold
        refine ⟨k, Nat.lt_succ_of_lt hk, ?_, hgood⟩
        intro x hx
        rcases Nat.lt_succ_iff_lt_or_eq.1 hx with hbefore | rfl
        · exact hone x hbefore
        · exact iff_of_false hnot (by omega)
    · rintro ⟨k, hk, hone, hgood⟩
      rcases Nat.lt_succ_iff_lt_or_eq.1 hk with hbefore | rfl
      · have hfold := ih.2 ⟨k, hbefore, fun x hx => hone x (Nat.lt_succ_of_lt hx), hgood⟩
        refine ⟨1, hfold, tally_eq_one.2 (.inr ⟨rfl, ?_⟩)⟩
        rw [hone n (Nat.lt_succ_self n)]
        omega
      · have hfold : (List.range k).foldlM (tally p good) 0 = some 0 := by
          apply foldlM_tally_zero.2
          intro x hx
          rw [hone x (Nat.lt_succ_of_lt hx)]
          omega
        exact ⟨0, hfold, tally_eq_one.2 (.inl ⟨rfl, (hone k hk).2 rfl, hgood⟩)⟩

/-- What the marks below `n` are like, in the order of the scan. -/
def markList (p good : Nat → Prop) [DecidablePred p] [DecidablePred good] (n : Nat) : List Bool :=
  ((List.range n).filter fun k => p k).map fun k => decide (good k)

theorem oneGood_iff_markList : OneGood p good n ↔ markList p good n = [true] := by
  unfold OneGood markList
  constructor
  · rintro ⟨k, hk, hone, hgood⟩
    have hfilter : (List.range n).filter (fun k => decide (p k)) = [k] := by
      apply filter_one List.nodup_range (List.mem_range.2 hk)
      intro x hx
      rw [decide_eq_true_eq]
      exact hone x (List.mem_range.1 hx)
    rw [hfilter, List.map_singleton, decide_eq_true hgood]
  · intro h
    rw [List.map_eq_singleton_iff] at h
    obtain ⟨k, hfilter, hgood⟩ := h
    have hmem : ∀ x, (x < n ∧ p x) ↔ x = k := by
      intro x
      rw [← List.mem_singleton, ← hfilter, List.mem_filter, List.mem_range, decide_eq_true_eq]
    refine ⟨k, ((hmem k).2 rfl).1, ?_, of_decide_eq_true hgood⟩
    intro x hx
    rw [← hmem x, and_iff_right hx]

end Tally

end Lib

import Mathlib.Data.List.Basic

/-!
# NOR flash

Memory is a byte function. An erase sets a range to `0xFF`; a program clears
bits, so it is the bitwise AND with what is there. `replay` runs a list of
operations; a power cut leaves `replay (ops.take k)` for some `k`, since each
operation is atomic. The frame lemmas say that an address outside every
operation's range keeps its byte.
-/

namespace Lib

abbrev Mem := Nat → BitVec 8

inductive FlashOp where
  | erase (a n : Nat)
  | program (a : Nat) (d : List (BitVec 8))
  deriving DecidableEq, Repr

namespace FlashOp

def start : FlashOp → Nat
  | erase a _ => a
  | program a _ => a

def stop : FlashOp → Nat
  | erase a n => a + n
  | program a d => a + d.length

def apply : FlashOp → Mem → Mem
  | erase a n, m => fun x => if a ≤ x ∧ x < a + n then 0xFF else m x
  | program a d, m => fun x => if a ≤ x ∧ x < a + d.length then m x &&& d.getD (x - a) 0 else m x

theorem apply_outside {op : FlashOp} {m : Mem} {x : Nat} (h : x < op.start ∨ op.stop ≤ x) :
    op.apply m x = m x := by
  cases op with
  | erase a n =>
    simp only [start, stop] at h
    exact if_neg (by omega)
  | program a d =>
    simp only [start, stop] at h
    exact if_neg (by omega)

theorem apply_erase {a n x : Nat} {m : Mem} (h1 : a ≤ x) (h2 : x < a + n) :
    (erase a n).apply m x = 0xFF := if_pos ⟨h1, h2⟩

theorem apply_program {a x : Nat} {d : List (BitVec 8)} {m : Mem} (h1 : a ≤ x)
    (h2 : x < a + d.length) : (program a d).apply m x = m x &&& d.getD (x - a) 0 :=
  if_pos ⟨h1, h2⟩

end FlashOp

def replay (ops : List FlashOp) (m : Mem) : Mem := ops.foldl (fun m op => op.apply m) m

@[simp] theorem replay_nil (m : Mem) : replay [] m = m := rfl

@[simp] theorem replay_cons (op : FlashOp) (ops : List FlashOp) (m : Mem) :
    replay (op :: ops) m = replay ops (op.apply m) := rfl

theorem replay_append (ops ops' : List FlashOp) (m : Mem) :
    replay (ops ++ ops') m = replay ops' (replay ops m) := List.foldl_append

/-- No operation reaches `x`. -/
def Spares (ops : List FlashOp) (x : Nat) : Prop := ∀ op ∈ ops, x < op.start ∨ op.stop ≤ x

theorem replay_spares {ops : List FlashOp} {x : Nat} (h : Spares ops x) (m : Mem) :
    replay ops m x = m x := by
  induction ops generalizing m with
  | nil => rfl
  | cons op ops ih =>
    rw [replay_cons, ih (fun o ho => h o (List.mem_cons_of_mem _ ho)),
      FlashOp.apply_outside (h op List.mem_cons_self)]

theorem Spares.take {ops : List FlashOp} {x : Nat} (h : Spares ops x) (k : Nat) :
    Spares (ops.take k) x := fun op hop => h op (List.mem_of_mem_take hop)

/-! ## Programming words -/

/-- Program whole words one after the other, as a `words_write` routine does. -/
def wordsWrite (a : Nat) : List (BitVec 8) → List FlashOp
  | b0 :: b1 :: b2 :: b3 :: d => .program a [b0, b1, b2, b3] :: wordsWrite (a + 4) d
  | _ => []

theorem wordsWrite_length (a : Nat) (d : List (BitVec 8)) :
    (wordsWrite a d).length = d.length / 4 := by
  induction a, d using wordsWrite.induct with
  | case1 a b0 b1 b2 b3 d ih =>
    rw [wordsWrite, List.length_cons, ih]
    simp only [List.length_cons]
    omega
  | case2 d a h4 =>
    have : d.length < 4 := by
      match d, h4 with
      | [], _ => simp
      | [_], _ => simp
      | [_, _], _ => simp
      | [_, _, _], _ => simp
      | b0 :: b1 :: b2 :: b3 :: d, h4 => exact (h4 b0 b1 b2 b3 d rfl).elim
    rw [wordsWrite, Nat.div_eq_of_lt this]
    · rfl
    · exact h4

/-- Each word lies inside the range written. -/
theorem mem_wordsWrite {a : Nat} {d : List (BitVec 8)} {op : FlashOp} (h : op ∈ wordsWrite a d) :
    a ≤ op.start ∧ op.stop ≤ a + d.length := by
  induction a, d using wordsWrite.induct with
  | case1 a b0 b1 b2 b3 d ih =>
    rw [wordsWrite, List.mem_cons] at h
    rcases h with rfl | h
    · simp [FlashOp.start, FlashOp.stop]
    · have := ih h
      simp only [List.length_cons]
      omega
  | case2 d a h4 =>
    rw [wordsWrite] at h
    · cases h
    · exact h4

theorem wordsWrite_spares {a x : Nat} {d : List (BitVec 8)} (h : x < a ∨ a + d.length ≤ x) :
    Spares (wordsWrite a d) x := by
  intro op hop
  have := mem_wordsWrite hop
  omega

/-- The first `k` words end at `a + 4 * k`. -/
theorem wordsWrite_take_spares {a x k : Nat} {d : List (BitVec 8)} (h : a + 4 * k ≤ x) :
    Spares ((wordsWrite a d).take k) x := by
  induction a, d using wordsWrite.induct generalizing k with
  | case1 a b0 b1 b2 b3 d ih =>
    cases k with
    | zero => intro op hop; cases hop
    | succ k =>
      intro op hop
      rw [wordsWrite, List.take_succ_cons, List.mem_cons] at hop
      rcases hop with rfl | hop
      · right
        simp only [FlashOp.stop, List.length_cons, List.length_nil]
        omega
      · exact ih (k := k) (by omega) op hop
  | case2 d a h4 =>
    intro op hop
    rw [wordsWrite] at hop
    · rw [List.take_nil] at hop; cases hop
    · exact h4

/-- Word by word is the same as all at once. -/
theorem replay_wordsWrite {a x : Nat} {d : List (BitVec 8)} {m : Mem} (h4 : d.length % 4 = 0) :
    replay (wordsWrite a d) m x = (FlashOp.program a d).apply m x := by
  induction a, d using wordsWrite.induct generalizing m with
  | case1 a b0 b1 b2 b3 d ih =>
    simp only [List.length_cons] at h4
    rw [wordsWrite, replay_cons, ih (by omega)]
    by_cases hlo : x < a + 4
    · rw [FlashOp.apply_outside (show x < (FlashOp.program (a + 4) d).start ∨ _ from .inl hlo)]
      simp only [FlashOp.apply, List.length_cons, List.length_nil]
      by_cases ha : a ≤ x
      · have hx : x - a = 0 ∨ x - a = 1 ∨ x - a = 2 ∨ x - a = 3 := by omega
        rw [if_pos ⟨ha, by omega⟩, if_pos ⟨ha, by omega⟩]
        rcases hx with h | h | h | h <;> rw [h] <;> rfl
      · rw [if_neg (by omega), if_neg (by omega)]
    · simp only [FlashOp.apply, List.length_cons, List.length_nil]
      rw [if_neg (show ¬(a ≤ x ∧ x < a + (0 + 1 + 1 + 1 + 1)) by omega)]
      by_cases hhi : x < a + 4 + d.length
      · rw [if_pos ⟨by omega, hhi⟩, if_pos ⟨by omega, by omega⟩]
        rw [show x - a = (x - (a + 4)) + 4 by omega]
        rfl
      · rw [if_neg (by omega), if_neg (by omega)]
  | case2 d a hd =>
    have : d = [] := by
      match d, hd, h4 with
      | [], _, _ => rfl
      | [_], _, h => simp at h
      | [_, _], _, h => simp at h
      | [_, _, _], _, h => simp at h
      | b0 :: b1 :: b2 :: b3 :: d, hd, _ => exact (hd b0 b1 b2 b3 d rfl).elim
    subst this
    rw [wordsWrite]
    · exact (FlashOp.apply_outside (Nat.lt_or_ge x a)).symm
    · exact hd

/-- On erased flash the words written are read back. -/
theorem replay_wordsWrite_erased {a x : Nat} {d : List (BitVec 8)} {m : Mem}
    (h4 : d.length % 4 = 0) (h1 : a ≤ x) (h2 : x < a + d.length) (hm : m x = 0xFF) :
    replay (wordsWrite a d) m x = d.getD (x - a) 0 := by
  rw [replay_wordsWrite h4, FlashOp.apply_program h1 h2, hm]
  exact BitVec.allOnes_and

/-! ## What a trace does to one byte -/

namespace FlashOp

def erasesAt (x : Nat) : FlashOp → Bool
  | erase a n => a ≤ x && x < a + n
  | program _ _ => false

def programsAt (x : Nat) : FlashOp → Bool
  | erase _ _ => false
  | program a d => a ≤ x && x < a + d.length

end FlashOp

theorem countP_erasesAt_wordsWrite (x a : Nat) (d : List (BitVec 8)) :
    (wordsWrite a d).countP (FlashOp.erasesAt x) = 0 := by
  induction a, d using wordsWrite.induct with
  | case1 a b0 b1 b2 b3 d ih =>
    rw [wordsWrite, List.countP_cons_of_neg (by simp [FlashOp.erasesAt]), ih]
  | case2 d a h4 =>
    rw [wordsWrite]
    · rfl
    · exact h4

theorem programsAt_wordsWrite {x a : Nat} {d : List (BitVec 8)} {op : FlashOp}
    (h : op ∈ wordsWrite a d) (hx : op.programsAt x = true) : a ≤ x ∧ x < a + d.length := by
  have hop := mem_wordsWrite h
  cases op with
  | erase b n => cases hx
  | program b e =>
    simp only [FlashOp.programsAt, Bool.and_eq_true, decide_eq_true_eq] at hx
    simp only [FlashOp.start, FlashOp.stop] at hop
    omega

/-- A byte of the range is programmed once, any other never. -/
theorem countP_programsAt_wordsWrite (x a : Nat) (d : List (BitVec 8)) :
    (wordsWrite a d).countP (FlashOp.programsAt x) ≤ (decide (a ≤ x ∧ x < a + d.length)).toNat := by
  induction a, d using wordsWrite.induct with
  | case1 a b0 b1 b2 b3 d ih =>
    rw [wordsWrite, List.countP_cons]
    simp only [FlashOp.programsAt, List.length_cons, List.length_nil, Bool.and_eq_true,
      decide_eq_true_eq]
    by_cases h4 : a + 4 ≤ x
    · rw [if_neg (by omega)]
      refine Nat.le_trans ih ?_
      by_cases hx : x < a + 4 + d.length
      · apply Nat.le_of_eq
        rw [decide_eq_true ⟨h4, hx⟩, decide_eq_true ⟨by omega, by omega⟩]
      · have hnone : decide (a + 4 ≤ x ∧ x < a + 4 + d.length) = false :=
          decide_eq_false (by omega)
        exact Nat.le_trans (Nat.le_of_eq (congrArg Bool.toNat hnone)) (Nat.zero_le _)
    · rw [decide_eq_false (by omega)] at ih
      by_cases hx : a ≤ x
      · rw [if_pos ⟨hx, by omega⟩, decide_eq_true ⟨hx, by omega⟩]
        exact Nat.add_le_add_right ih 1
      · rw [if_neg (by omega)]
        exact Nat.le_trans ih (Nat.zero_le _)
  | case2 d a h4 =>
    rw [wordsWrite]
    · exact Nat.zero_le _
    · exact h4

/-- Every byte of `P` is erased before it is programmed. -/
def ErasedFirst (P : Nat → Prop) (trace : List FlashOp) : Prop :=
  ∀ pre op post x, trace = pre ++ op :: post → op.programsAt x = true → P x →
    ∃ o ∈ pre, o.erasesAt x = true

theorem ErasedFirst.append {P : Nat → Prop} {trace ops : List FlashOp} (h : ErasedFirst P trace)
    (hops : ∀ op ∈ ops, ∀ x, op.programsAt x = true → P x → ∃ o ∈ trace, o.erasesAt x = true) :
    ErasedFirst P (trace ++ ops) := by
  intro pre op post x heq hx hP
  rcases List.append_eq_append_iff.mp heq with ⟨c, rfl, hc⟩ | ⟨c, rfl, hc⟩
  · obtain ⟨o, ho, hox⟩ := hops op (by rw [hc]; simp) x hx hP
    exact ⟨o, List.mem_append_left _ ho, hox⟩
  · cases c with
    | nil =>
      rw [List.append_nil] at *
      obtain ⟨o, ho, hox⟩ := hops op (by simp at hc; rw [← hc]; simp) x hx hP
      exact ⟨o, ho, hox⟩
    | cons o c =>
      rw [List.cons_append, List.cons.injEq] at hc
      obtain ⟨rfl, -⟩ := hc
      exact h pre _ c x rfl hx hP

/-! ## Reading -/

/-- The `n` bytes at `a`. -/
def slice (m : Mem) (a n : Nat) : List (BitVec 8) := (List.range n).map fun i => m (a + i)

@[simp] theorem slice_length (m : Mem) (a n : Nat) : (slice m a n).length = n := by simp [slice]

theorem slice_congr {m m' : Mem} {a n : Nat} (h : ∀ x, a ≤ x → x < a + n → m x = m' x) :
    slice m a n = slice m' a n := by
  refine List.map_congr_left fun i hi => ?_
  rw [List.mem_range] at hi
  exact h (a + i) (by omega) (by omega)

theorem slice_const {m : Mem} {a n : Nat} {b : BitVec 8} (h : ∀ x, a ≤ x → x < a + n → m x = b) :
    slice m a n = List.replicate n b := by
  refine List.eq_replicate_iff.mpr ⟨slice_length m a n, fun x hx => ?_⟩
  obtain ⟨i, hi, rfl⟩ := List.mem_map.mp hx
  rw [List.mem_range] at hi
  exact h (a + i) (by omega) (by omega)

theorem slice_getElem? {m : Mem} {a n i : Nat} (h : i < n) : (slice m a n)[i]? = some (m (a + i)) := by
  simp [slice, h]

theorem slice_getD {m : Mem} {a n x : Nat} (h1 : a ≤ x) (h2 : x < a + n) :
    (slice m a n).getD (x - a) 0 = m x := by
  rw [List.getD_eq_getElem?_getD, slice_getElem? (by omega), Option.getD_some,
    Nat.add_sub_cancel' h1]

theorem slice_getD_add {m : Mem} {a n i : Nat} (h : i < n) : (slice m a n).getD i 0 = m (a + i) := by
  rw [List.getD_eq_getElem?_getD, slice_getElem? h, Option.getD_some]

/-- The bytes of a list, from `a` on. -/
theorem slice_eq_of_getD {m : Mem} {a n : Nat} {d : List (BitVec 8)} (hlen : d.length = n)
    (h : ∀ i, i < n → m (a + i) = d.getD i 0) : slice m a n = d := by
  refine List.ext_getElem? fun i => ?_
  by_cases hi : i < n
  · rw [slice_getElem? hi, h i hi, List.getD_eq_getElem?_getD, List.getElem?_eq_getElem (by omega),
      Option.getD_some]
  · rw [List.getElem?_eq_none (by rw [slice_length]; omega), List.getElem?_eq_none (by omega)]

theorem slice_add (m : Mem) (a n k : Nat) : slice m a (n + k) = slice m a n ++ slice m (a + n) k := by
  simp only [slice, List.range_add, List.map_append, List.map_map]
  congr 1
  refine List.map_congr_left fun i _ => ?_
  simp [Nat.add_assoc]

theorem slice_take {m : Mem} {a n k : Nat} (h : k ≤ n) : (slice m a n).take k = slice m a k := by
  rw [show n = k + (n - k) by omega, slice_add, List.take_left' (slice_length _ _ _)]

theorem slice_drop {m : Mem} {a n k : Nat} (h : k ≤ n) :
    (slice m a n).drop k = slice m (a + k) (n - k) := by
  conv_lhs => rw [show n = k + (n - k) by omega, slice_add]
  exact List.drop_left' (slice_length _ _ _)

theorem slice_wordsWrite_erased {m : Mem} {a : Nat} {d : List (BitVec 8)} (h4 : d.length % 4 = 0)
    (hm : ∀ x, a ≤ x → x < a + d.length → m x = 0xFF) :
    slice (replay (wordsWrite a d) m) a d.length = d := by
  refine List.ext_getElem? fun i => ?_
  by_cases hi : i < d.length
  · rw [slice_getElem? hi, replay_wordsWrite_erased h4 (by omega) (by omega)
      (hm _ (by omega) (by omega)), Nat.add_sub_cancel_left, List.getD_eq_getElem?_getD,
      List.getElem?_eq_getElem hi]
    rfl
  · rw [List.getElem?_eq_none (by simpa using hi), List.getElem?_eq_none (by omega)]

end Lib

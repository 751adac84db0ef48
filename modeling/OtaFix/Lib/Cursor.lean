import OtaFix.Lib.NorFlash
import OtaFix.Lib.Prog
import OtaFix.Lib.Reader

/-!
# Readers over memory

A reader loads single bytes of memory and may give up. `Follows R r q` relates it to a
parser over lists: every load of `r` stays in the region, and the two give up together
or end with related results. A cursor is related to the list of bytes between its
pointers (`At`), and a loop over a cursor to `whileInput`.
-/

namespace Lib

abbrev LoadRes (_ : Nat) : Type := BitVec 8

abbrev Reader (α : Type) := OptionT (Prog LoadRes) α

def load (a : Nat) : Reader (BitVec 8) := OptionT.lift (Prog.perform a)

def loadAll : List Nat → Reader (List (BitVec 8))
  | [] => pure []
  | a :: l => do
    let c ← load a
    let cs ← loadAll l
    return c :: cs

/-- Memory, byte by byte. -/
def memLoads (f : Mem) : Handler LoadRes Unit := fun a s => (f a, s)

/-- A pointer into a buffer, and the buffer's end. -/
structure Cursor where
  p : Nat
  fin : Nat
  deriving DecidableEq, Repr

/-- Run `turn` while the cursor is not at its end. -/
def cursorLoop {α : Type} (turn : α → Cursor → Reader (α × Cursor)) : Nat → α → Cursor → Reader α
  | 0, a, b => if b.p = b.fin then pure a else failure
  | fuel + 1, a, b =>
    if b.p = b.fin then pure a
    else do
      let (a, b) ← turn a b
      cursorLoop turn fuel a b

def whileCursor {α : Type} (turn : α → Cursor → Reader (α × Cursor)) (a : α) (b : Cursor) :
    Reader α :=
  cursorLoop turn (b.fin - b.p) a b

section Follows

variable {α β γ δ : Type} {f : Mem} {lo hi : Nat} {R : α → β → Prop} {S : γ → δ → Prop}

def Follows (f : Mem) (lo hi : Nat) (R : α → β → Prop) (r : Reader α) (q : Option β) : Prop :=
  Prog.Sat (memLoads f) (fun a _ => lo ≤ a ∧ a < hi) (fun x _ => Option.Rel R x q) r.run ()

theorem follows_pure {a : α} {b : β} (h : R a b) : Follows f lo hi R (pure a) (some b) := .some h

theorem follows_failure : Follows f lo hi R failure none := .none

theorem Follows.bind {r : Reader α} {q : Option β} {k : α → Reader γ} {g : β → Option δ}
    (h : Follows f lo hi R r q)
    (hk : ∀ a b, q = some b → R a b → Follows f lo hi S (k a) (g b)) :
    Follows f lo hi S (r >>= k) (q.bind g) := by
  refine Prog.Sat.bind h fun x s hx => ?_
  cases hx with
  | none => exact .none
  | some hab => exact hk _ _ rfl hab

/-- A load, then the rest of the reader. -/
theorem follows_load {a : Nat} {k : BitVec 8 → Reader α} {q : Option β} (hlo : lo ≤ a) (hhi : a < hi)
    (hk : Follows f lo hi R (k (f a)) q) : Follows f lo hi R (load a >>= k) q := ⟨⟨hlo, hhi⟩, hk⟩

theorem Follows.mono {R' : α → β → Prop} {r : Reader α} {q : Option β} (h : Follows f lo hi R r q)
    (hR : ∀ a b, R a b → R' a b) : Follows f lo hi R' r q :=
  Prog.Sat.post h fun _ _ hx => by
    cases hx with
    | none => exact .none
    | some hab => exact .some (hR _ _ hab)

/-- A branch taken by both. -/
theorem follows_ite_iff {c c' : Prop} [Decidable c] [Decidable c'] {r r' : Reader α}
    {q q' : Option β} (hc : c ↔ c') (ht : c → Follows f lo hi R r q)
    (hf : ¬ c → Follows f lo hi R r' q') :
    Follows f lo hi R (if c then r else r') (if c' then q else q') := by
  by_cases h : c
  · rw [if_pos h, if_pos (hc.mp h)]
    exact ht h
  · rw [if_neg h, if_neg (fun h' => h (hc.mpr h'))]
    exact hf h

theorem follows_ite {c : Prop} [Decidable c] {r r' : Reader α} {q q' : Option β}
    (ht : c → Follows f lo hi R r q) (hf : ¬ c → Follows f lo hi R r' q') :
    Follows f lo hi R (if c then r else r') (if c then q else q') := follows_ite_iff Iff.rfl ht hf

/-- A check without a load. -/
theorem follows_check (q : Option α) : Follows f lo hi Eq (OptionT.mk (pure q)) q := by
  cases q with
  | none => exact .none
  | some a => exact .some rfl

theorem follows_loadAll {l : List Nat} (hl : ∀ a ∈ l, lo ≤ a ∧ a < hi) :
    Follows f lo hi Eq (loadAll l) (some (l.map f)) := by
  induction l with
  | nil => exact follows_pure rfl
  | cons a l ih =>
    obtain ⟨ha, hl⟩ := List.forall_mem_cons.mp hl
    refine follows_load ha.1 ha.2 ?_
    refine (ih hl).bind (g := fun cs => some (f a :: cs)) fun _ cs _ hcs => ?_
    rw [hcs]
    exact follows_pure rfl

/-! ## Cursors -/

/-- The bytes between the pointers are `l`, and they lie in the region. -/
structure At (f : Mem) (lo hi : Nat) (b : Cursor) (l : List (BitVec 8)) : Prop where
  lo_le : lo ≤ b.p
  le : b.p ≤ b.fin
  le_hi : b.fin ≤ hi
  view : slice f b.p (b.fin - b.p) = l

variable {b : Cursor} {l : List (BitVec 8)}

theorem At.length (h : At f lo hi b l) : l.length = b.fin - b.p := by
  rw [← h.view, slice_length]

theorem At.end_iff (h : At f lo hi b l) : b.p = b.fin ↔ l = [] := by
  have := h.length
  have := h.le
  rw [← List.length_eq_zero_iff]
  omega

/-- One byte on. -/
theorem At.cons {c : BitVec 8} (h : At f lo hi b (c :: l)) :
    b.p < b.fin ∧ f b.p = c ∧ At f lo hi ⟨b.p + 1, b.fin⟩ l := by
  have hlen := h.length
  have := h.le
  have := h.lo_le
  have := h.le_hi
  rw [List.length_cons] at hlen
  have hview := h.view
  rw [show b.fin - b.p = 1 + (b.fin - (b.p + 1)) by omega, slice_add] at hview
  obtain ⟨hc, hl⟩ := List.cons.inj hview
  exact ⟨by omega, hc, by simp only; omega, by simp only; omega, by simp only; omega, hl⟩

/-- A part of the buffer, and what is behind it. -/
theorem At.split {n : Nat} (h : At f lo hi b l) (hn : n ≤ l.length) :
    At f lo hi ⟨b.p, b.p + n⟩ (l.take n) ∧ At f lo hi ⟨b.p + n, b.fin⟩ (l.drop n) := by
  have hlen := h.length
  have := h.le
  have := h.lo_le
  have := h.le_hi
  rw [← h.view, slice_take (by omega), slice_drop (by omega)]
  refine ⟨⟨by simp only; omega, by simp only; omega, by simp only; omega, ?_⟩,
    ⟨by simp only; omega, by simp only; omega, by simp only; omega, ?_⟩⟩
  · simp only [Nat.add_sub_cancel_left]
  · simp only [Nat.sub_sub]

/-- A result and the cursor behind it. -/
def PairAt (f : Mem) (lo hi : Nat) (x : α × Cursor) (y : α × List (BitVec 8)) : Prop :=
  x.1 = y.1 ∧ At f lo hi x.2 y.2

theorem follows_whileCursor {turn : α → Cursor → Reader (α × Cursor)}
    {turn' : α → List (BitVec 8) → Option (α × List (BitVec 8))}
    (hless : ∀ a l a' l', turn' a l = some (a', l') → l'.length < l.length)
    (hturn : ∀ a b l, At f lo hi b l → Follows f lo hi (PairAt f lo hi) (turn a b) (turn' a l))
    {a : α} (h : At f lo hi b l) :
    Follows f lo hi Eq (whileCursor turn a b) (whileInput turn' a l) := by
  have hloop : ∀ n {a b l}, At f lo hi b l → l.length ≤ n →
      Follows f lo hi Eq (cursorLoop turn n a b) (whileInput turn' a l) := by
    intro n
    induction n with
    | zero =>
      intro a b l h hn
      obtain rfl : l = [] := List.length_eq_zero_iff.mp (by omega)
      rw [cursorLoop, if_pos (h.end_iff.mpr rfl)]
      exact follows_pure rfl
    | succ n ih =>
      intro a b l h hn
      rw [whileInput_eq hless, cursorLoop]
      by_cases hl : l = []
      · rw [if_pos (h.end_iff.mpr hl), if_pos (List.length_eq_zero_iff.mpr hl)]
        exact follows_pure rfl
      rw [if_neg (fun he => hl (h.end_iff.mp he)),
        if_neg (fun he => hl (List.length_eq_zero_iff.mp he))]
      refine (hturn a b l h).bind fun x r hr hx => ?_
      obtain ⟨a', b'⟩ := x
      obtain ⟨rfl, hat⟩ := hx
      have := hless _ _ _ _ hr
      exact ih hat (by omega)
  exact hloop _ h (Nat.le_of_eq h.length)

end Follows

end Lib

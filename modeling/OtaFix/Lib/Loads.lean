import OtaFix.Lib.Cursor

/-!
# Programs that load

`Loads f P p v`: over the memory `f`, the program `p` loads only where `P` allows and
returns `v`. A program is taken apart at its binds, a counted loop at its turns.
-/

namespace Lib

open Prog

variable {α β : Type} {f : Mem} {P Q : Nat → Prop} {p : Prog LoadRes α} {v : α}

def Loads (f : Mem) (P : Nat → Prop) (p : Prog LoadRes α) (v : α) : Prop :=
  p.Sat (memLoads f) (fun a _ => P a) (fun r _ => r = v) ()

theorem Loads.ret (v : α) : Loads f P (pure v) v := rfl

theorem Loads.perform {a : Nat} (h : P a) : Loads f P (perform a) (f a) := ⟨h, rfl⟩

theorem Loads.bind {k : α → Prog LoadRes β} {w : β} (h : Loads f P p v) (hk : Loads f P (k v) w) :
    Loads f P (p >>= k) w := by
  refine Sat.bind h fun r s hr => ?_
  rw [hr]
  exact hk

/-- One load, then the rest. -/
theorem Loads.load {a : Nat} {k : BitVec 8 → Prog LoadRes β} {w : β} (h : P a)
    (hk : Loads f P (k (f a)) w) : Loads f P (Prog.perform a >>= k) w := Loads.bind (.perform h) hk

theorem Loads.mono (h : Loads f P p v) (hPQ : ∀ a, P a → Q a) : Loads f Q p v :=
  Sat.mono h (fun a _ => hPQ a) fun _ _ hr => hr

/-- A branch, with its value. -/
theorem Loads.ite_iff {c c' : Prop} [Decidable c] [Decidable c'] {q : Prog LoadRes α} {w : α}
    (hc : c ↔ c') (ht : c → Loads f P p v) (hf : ¬ c → Loads f P q w) :
    Loads f P (if c then p else q) (if c' then v else w) := by
  by_cases h : c
  · rw [if_pos h, if_pos (hc.mp h)]
    exact ht h
  · rw [if_neg h, if_neg (fun h' => h (hc.mpr h'))]
    exact hf h

theorem Loads.ite {c : Prop} [Decidable c] {q : Prog LoadRes α} {w : α} (ht : c → Loads f P p v)
    (hf : ¬ c → Loads f P q w) : Loads f P (if c then p else q) (if c then v else w) :=
  Loads.ite_iff Iff.rfl ht hf

theorem Loads.result (h : Loads f P p v) : (p.run (memLoads f) ()).1 = v := Sat.result h

/-- No load of the run is outside `P`. -/
theorem Loads.inside (h : Loads f P p v) : ∀ x ∈ p.trace (memLoads f) (), P x.1 := Sat.trace h

/-- The `n` bytes at `a`. -/
def loadSlice (a : Nat) : Nat → Prog LoadRes (List (BitVec 8))
  | 0 => pure []
  | n + 1 => do
    let c ← perform a
    let cs ← loadSlice (a + 1) n
    pure (c :: cs)

theorem loads_slice {a n : Nat} (h : ∀ x, a ≤ x → x < a + n → P x) :
    Loads f P (loadSlice a n) (slice f a n) := by
  induction n generalizing a with
  | zero => exact .ret _
  | succ n ih =>
    have hcons : slice f a (n + 1) = f a :: slice f (a + 1) n := by
      rw [Nat.add_comm, slice_add]
      rfl
    rw [hcons]
    apply Loads.load (h a (Nat.le_refl a) (by omega))
    apply Loads.bind (ih fun x h1 h2 => h x (by omega) (by omega))
    exact .ret _

/-- `for (; i < n; i++) if (turn(i)) break;`, and whether it broke; `n` turns are left. -/
def anyLoop (turn : Nat → Prog LoadRes Bool) : Nat → Nat → Prog LoadRes Bool
  | 0, _ => pure false
  | n + 1, i => do
    if ← turn i then pure true else anyLoop turn n (i + 1)

theorem loads_anyLoop {turn : Nat → Prog LoadRes Bool} {t : Nat → Bool} {n i : Nat}
    (h : ∀ j, i ≤ j → j < i + n → Loads f P (turn j) (t j)) :
    Loads f P (anyLoop turn n i) ((List.range' i n).any t) := by
  induction n generalizing i with
  | zero => exact .ret _
  | succ n ih =>
    rw [List.range'_succ, List.any_cons]
    unfold anyLoop
    apply Loads.bind (h i (Nat.le_refl i) (by omega))
    cases t i with
    | true => exact .ret _
    | false => exact ih fun j h1 h2 => h j (by omega) (by omega)

end Lib

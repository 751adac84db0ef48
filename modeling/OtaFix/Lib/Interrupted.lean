import OtaFix.Lib.NorFlash

/-!
# Interrupted flash programs

A step answers a code and the flash operations that it made on the way. Power may be lost behind
any of them: `AtCuts P` says that `P` holds wherever the operations stop. `Ran ok F m r P Q` is the
triple of a step that began in `m`: `P` at every cut, `Q` at the end if the code is `ok`, and any
other code one that the hardware answered (`F`) in a state on the way.
-/

namespace Lib

variable {P Q : Mem → Prop} {m : Mem} {ops ops' : List FlashOp}

/-- `P` holds wherever the operations stop. -/
def AtCuts (P : Mem → Prop) (ops : List FlashOp) (m : Mem) : Prop :=
  ∀ k, P (replay (ops.take k) m)

namespace AtCuts

theorem nil (h : P m) : AtCuts P [] m := fun k => by
  rw [List.take_nil]
  exact h

theorem whole (h : AtCuts P ops m) : P (replay ops m) := by
  have := h ops.length
  rwa [List.take_length] at this

theorem append (h : AtCuts P ops m) (h' : AtCuts P ops' (replay ops m)) :
    AtCuts P (ops ++ ops') m := by
  intro k
  rw [List.take_append, replay_append]
  obtain hk | hk := Nat.le_total k ops.length
  · rw [Nat.sub_eq_zero_of_le hk, List.take_zero]
    exact h k
  · rw [List.take_of_length_le hk]
    exact h' _

theorem mono (h : AtCuts P ops m) (hPQ : ∀ m, P m → Q m) : AtCuts Q ops m :=
  fun k => hPQ _ (h k)

end AtCuts

/-- What is left of a program that loses power behind `k` operations. -/
def cutAt {ε : Type} (m : Mem) (k : Nat) : Option (ε × List FlashOp) → Mem
  | some r => replay (r.2.take k) m
  | none => m

@[simp] theorem cutAt_some {ε : Type} {k : Nat} {r : ε × List FlashOp} :
    cutAt m k (some r) = replay (r.2.take k) m := rfl

variable {ε : Type} [DecidableEq ε] {ok : ε} {F : Mem → ε → Prop}

/-- The next step, unless the code of the first one is an error. -/
def andThen (ok : ε) (m : Mem) (r : ε × List FlashOp) (next : Mem → ε × List FlashOp) :
    ε × List FlashOp :=
  if r.1 ≠ ok then r else ((next (replay r.2 m)).1, r.2 ++ (next (replay r.2 m)).2)

structure Ran (ok : ε) (F : Mem → ε → Prop) (m : Mem) (r : ε × List FlashOp) (P Q : Mem → Prop) :
    Prop where
  cuts : AtCuts P r.2 m
  success : r.1 = ok → Q (replay r.2 m)
  failed : r.1 ≠ ok → ∃ k, F (replay (r.2.take k) m) r.1

namespace Ran

omit [DecidableEq ε] in
theorem done (hP : P m) (hQ : Q m) : Ran ok F m (ok, []) P Q :=
  ⟨.nil hP, fun _ => hQ, fun h => absurd rfl h⟩

theorem andThen {r : ε × List FlashOp} {next : Mem → ε × List FlashOp} {Q' : Mem → Prop}
    (h : Ran ok F m r P Q) (hnext : ∀ m', Q m' → Ran ok F m' (next m') P Q') :
    Ran ok F m (andThen ok m r next) P Q' := by
  rw [Lib.andThen]
  split
  · rename_i hr
    exact ⟨h.cuts, fun hs => absurd hs hr, h.failed⟩
  · rename_i hr
    have hn := hnext _ (h.success (not_not.mp hr))
    refine ⟨h.cuts.append hn.cuts, fun hs => ?_, fun hf => ?_⟩
    · rw [replay_append]
      exact hn.success hs
    · -- the state lies behind all operations of the first step
      obtain ⟨k, hk⟩ := hn.failed hf
      refine ⟨r.2.length + k, ?_⟩
      rw [List.take_length_add_append, replay_append]
      exact hk

omit [DecidableEq ε] in
theorem mono {r : ε × List FlashOp} {P' Q' : Mem → Prop} (h : Ran ok F m r P Q)
    (hP : ∀ m, P m → P' m) (hQ : ∀ m, Q m → Q' m) : Ran ok F m r P' Q' :=
  ⟨h.cuts.mono hP, fun hs => hQ _ (h.success hs), h.failed⟩

end Ran

end Lib

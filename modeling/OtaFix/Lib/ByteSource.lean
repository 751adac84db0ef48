import OtaFix.Lib.Prog
import OtaFix.Lib.NorFlash

/-!
# Programs over a byte source

A reader is a program whose one operation asks a source for the bytes
`[a, a + n)`. The source may keep a state, and a read may fail. `Serves h f lo hi`
says that reads inside `[lo, hi)` succeed with the bytes of `f`, and `Honest h f`
that no successful read answers anything else. `Prog.lift` carries a reader over
to programs of another signature, one program for each read.
-/

namespace Lib

/-- The answer to a read: its bytes, or a failure. -/
abbrev ReadRes (_ : Nat × Nat) : Type := Option (List (BitVec 8))

abbrev ReadM (α : Type) := Prog ReadRes α

/-- Ask for `[a, a + n)`. -/
abbrev readAt (a n : Nat) : ReadM (Option (List (BitVec 8))) :=
  (Prog.perform (a, n) : Prog ReadRes (ReadRes (a, n)))

abbrev Source (σ : Type) := Handler ReadRes σ

variable {σ : Type}

def Serves (h : Source σ) (f : Mem) (lo hi : Nat) : Prop :=
  ∀ s a n, lo ≤ a → a + n ≤ hi → (h (a, n) s).1 = some (slice f a n)

def Honest (h : Source σ) (f : Mem) : Prop :=
  ∀ s a n d, (h (a, n) s).1 = some d → d = slice f a n

/-- Memory as a source; every read succeeds. -/
def memSource (f : Mem) : Source Unit := fun x s => (some (slice f x.1 x.2), s)

theorem serves_memSource (f : Mem) (lo hi : Nat) : Serves (memSource f) f lo hi :=
  fun _ _ _ _ _ => rfl

theorem honest_memSource (f : Mem) : Honest (memSource f) f :=
  fun _ _ _ _ h => (Option.some.inj h).symm

/-- A read, then the rest of the program. -/
theorem sat_readAt {α : Type} {h : Source σ} {ok : Nat × Nat → σ → Prop} {Q : α → σ → Prop}
    {a n : Nat} {k : Option (List (BitVec 8)) → ReadM α} {s : σ} :
    (readAt a n >>= k).Sat h ok Q s ↔
      ok (a, n) s ∧ (k (h (a, n) s).1).Sat h ok Q (h (a, n) s).2 := Iff.rfl

namespace Prog

variable {Op Op' : Type} {Res : Op → Type} {Res' : Op' → Type} {α β : Type}

@[simp] theorem trace_ret (h : Handler Res σ) (a : α) (s : σ) :
    (ret a : Prog Res α).trace h s = [] := rfl

theorem trace_bind (h : Handler Res σ) (p : Prog Res α) (k : α → Prog Res β) (s : σ) :
    (p >>= k).trace h s = p.trace h s ++ (k (p.run h s).1).trace h (p.run h s).2 := by
  induction p generalizing s with
  | ret a => rfl
  | call o k' ih => exact congrArg ((o, s) :: ·) (ih _ _)

/-- Continuations that agree behind a program's result make the same run. -/
theorem Sat.run_bind_congr {h : Handler Res σ} {ok : Op → σ → Prop} {Q : α → σ → Prop}
    {p : Prog Res α} {k k' : α → Prog Res β} {s : σ} (hp : p.Sat h ok Q s)
    (hk : ∀ a s', Q a s' → (k a).run h s' = (k' a).run h s') :
    (p >>= k).run h s = (p >>= k').run h s := by
  rw [run_bind, run_bind]
  exact hk _ _ hp.result

/-- The program with every operation carried out by a program of another signature. -/
def lift (f : (o : Op) → Prog Res' (Res o)) : Prog Res α → Prog Res' α
  | ret a => ret a
  | call o k => f o >>= fun r => (k r).lift f

variable (f : (o : Op) → Prog Res' (Res o))

@[simp] theorem lift_ret (a : α) : (ret a : Prog Res α).lift f = ret a := rfl

@[simp] theorem lift_call (o : Op) (k : Res o → Prog Res α) :
    (call o k).lift f = f o >>= fun r => (k r).lift f := rfl

theorem lift_bind (p : Prog Res α) (k : α → Prog Res β) :
    (p >>= k).lift f = p.lift f >>= fun a => (k a).lift f := by
  induction p with
  | ret a => rfl
  | call o k' ih =>
    rw [call_bind, lift_call, lift_call, bind_assoc]
    exact congrArg (f o >>= ·) (funext ih)

end Prog

end Lib

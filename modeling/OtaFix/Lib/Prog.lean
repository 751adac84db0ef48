import Mathlib.Order.Basic

/-!
# Programs over an effect signature

`Prog Res α` is a program that calls operations `o : Op` and goes on with their
answers in `Res o`. A handler gives the operations a meaning over a state.
`Sat h ok Q p s` is the weakest precondition of `p`: run from `s`, every
operation it calls is called in a state where `ok` allows it, and it ends in `Q`.
Invariants come from `ok` alone (`Sat.keep`), and two handlers that agree on the
calls of a run make the same run (`Sat.run_congr`).
-/

namespace Lib

inductive Prog {Op : Type} (Res : Op → Type) (α : Type) where
  | ret (a : α)
  | call (o : Op) (k : Res o → Prog Res α)

namespace Prog

variable {Op : Type} {Res : Op → Type} {σ α β : Type}

def bind (p : Prog Res α) (f : α → Prog Res β) : Prog Res β :=
  match p with
  | ret a => f a
  | call o k => call o fun r => (k r).bind f

instance : Monad (Prog Res) where
  pure := ret
  bind := bind

/-- One operation. -/
def perform (o : Op) : Prog Res (Res o) := call o ret

@[simp] theorem pure_eq (a : α) : (pure a : Prog Res α) = ret a := rfl

@[simp] theorem ret_bind (a : α) (f : α → Prog Res β) : (ret a : Prog Res α) >>= f = f a := rfl

@[simp] theorem call_bind (o : Op) (k : Res o → Prog Res α) (f : α → Prog Res β) :
    call o k >>= f = call o fun r => k r >>= f := rfl

@[simp] theorem perform_bind (o : Op) (f : Res o → Prog Res β) : perform o >>= f = call o f := rfl

theorem bind_assoc {γ : Type} (p : Prog Res α) (f : α → Prog Res β) (g : β → Prog Res γ) :
    p >>= f >>= g = p >>= fun a => f a >>= g := by
  induction p with
  | ret a => rfl
  | call o k ih => exact congrArg (call o) (funext ih)

end Prog

/-- The meaning of the operations over a state. -/
abbrev Handler {Op : Type} (Res : Op → Type) (σ : Type) := (o : Op) → σ → Res o × σ

namespace Prog

variable {Op : Type} {Res : Op → Type} {σ α β : Type}

def run (h : Handler Res σ) : Prog Res α → σ → α × σ
  | ret a, s => (a, s)
  | call o k, s => (k (h o s).1).run h (h o s).2

@[simp] theorem run_ret (h : Handler Res σ) (a : α) (s : σ) : (ret a).run h s = (a, s) := rfl

@[simp] theorem run_call (h : Handler Res σ) (o : Op) (k : Res o → Prog Res α) (s : σ) :
    (call o k).run h s = (k (h o s).1).run h (h o s).2 := rfl

theorem run_bind (h : Handler Res σ) (p : Prog Res α) (f : α → Prog Res β) (s : σ) :
    (p >>= f).run h s = (f (p.run h s).1).run h (p.run h s).2 := by
  induction p generalizing s with
  | ret a => rfl
  | call o k ih => exact ih _ _

/-! ## Paths -/

/-- Where `q` answers `some c`, `p` goes on as `k c` from there. -/
def LeadsTo {γ : Type} (h : Handler Res σ) (q : Prog Res (Option γ)) (p : Prog Res α)
    (k : γ → Prog Res α) : Prop :=
  ∀ s c t, q.run h s = (some c, t) → p.run h s = (k c).run h t

section Paths

variable {γ : Type} {h : Handler Res σ} {q : Prog Res (Option γ)} {p p' : Prog Res α}
  {k : γ → Prog Res α}

theorem LeadsTo.here {c : γ} (hp : p = k c) : LeadsTo h (ret (some c)) p k := by
  intro s c' t heq
  cases heq
  rw [hp]

/-- The path ends. -/
theorem LeadsTo.ended : LeadsTo h (ret none) p k := by
  intro s c t heq
  cases heq

theorem LeadsTo.bind {r : Prog Res β} {f : β → Prog Res (Option γ)} {g : β → Prog Res α}
    (hf : ∀ b, LeadsTo h (f b) (g b) k) : LeadsTo h (r >>= f) (r >>= g) k := by
  intro s c t heq
  rw [run_bind] at heq ⊢
  exact hf _ _ c t heq

/-- The path stays on the second branch. -/
theorem LeadsTo.stay {c : Prop} [Decidable c] (hp : LeadsTo h q p k) :
    LeadsTo h (if c then ret none else q) (if c then p' else p) k := by
  intro s a t heq
  by_cases hc : c
  · rw [if_pos hc] at heq
    exact LeadsTo.ended s a t heq
  · rw [if_neg hc] at heq ⊢
    exact hp s a t heq

end Paths

/-! ## Weakest preconditions -/

def Sat (h : Handler Res σ) (ok : Op → σ → Prop) (Q : α → σ → Prop) : Prog Res α → σ → Prop
  | ret a, s => Q a s
  | call o k, s => ok o s ∧ (k (h o s).1).Sat h ok Q (h o s).2

variable {h h' : Handler Res σ} {ok ok' : Op → σ → Prop} {Q Q' : α → σ → Prop} {R : β → σ → Prop}
  {p : Prog Res α} {f : α → Prog Res β} {s : σ}

@[simp] theorem sat_ret {a : α} : (ret a : Prog Res α).Sat h ok Q s ↔ Q a s := Iff.rfl

@[simp] theorem sat_call {o : Op} {k : Res o → Prog Res α} :
    (call o k).Sat h ok Q s ↔ ok o s ∧ (k (h o s).1).Sat h ok Q (h o s).2 := Iff.rfl

theorem Sat.bind (hp : p.Sat h ok Q s) (hf : ∀ a s, Q a s → (f a).Sat h ok R s) :
    (p >>= f).Sat h ok R s := by
  induction p generalizing s with
  | ret a => exact hf a s hp
  | call o k ih => exact ⟨hp.1, ih _ hp.2⟩

theorem Sat.mono (hp : p.Sat h ok Q s) (hok : ∀ o s, ok o s → ok' o s)
    (hQ : ∀ a s, Q a s → Q' a s) : p.Sat h ok' Q' s := by
  induction p generalizing s with
  | ret a => exact hQ a s hp
  | call o k ih => exact ⟨hok o s hp.1, ih _ hp.2⟩

theorem Sat.post (hp : p.Sat h ok Q s) (hQ : ∀ a s, Q a s → Q' a s) : p.Sat h ok Q' s :=
  hp.mono (fun _ _ h => h) hQ

/-- A run ends as it does. -/
theorem sat_run : p.Sat h (fun _ _ => True) (fun a t => p.run h s = (a, t)) s := by
  induction p generalizing s with
  | ret a => rfl
  | call o k ih => exact ⟨trivial, ih _⟩

/-- Every run is allowed where every operation is. -/
theorem sat_true : p.Sat h (fun _ _ => True) (fun _ _ => True) s := by
  induction p generalizing s with
  | ret a => trivial
  | call o k ih => exact ⟨trivial, ih _⟩

/-- What holds after the run. -/
theorem Sat.result (hp : p.Sat h ok Q s) : Q (p.run h s).1 (p.run h s).2 := by
  induction p generalizing s with
  | ret a => exact hp
  | call o k ih => exact ih _ hp.2

/-- Two facts about one run. -/
theorem Sat.and (hp : p.Sat h ok Q s) (hp' : p.Sat h ok' Q' s) :
    p.Sat h (fun o s => ok o s ∧ ok' o s) (fun a s => Q a s ∧ Q' a s) s := by
  induction p generalizing s with
  | ret a => exact ⟨hp, hp'⟩
  | call o k ih => exact ⟨⟨hp.1, hp'.1⟩, ih _ hp.2 hp'.2⟩

/-- What every allowed operation keeps holds at every call and at the end. -/
theorem Sat.keep {I : σ → Prop} (hp : p.Sat h ok Q s) (h0 : I s)
    (hstep : ∀ o s, ok o s → I s → I (h o s).2) :
    p.Sat h (fun o s => ok o s ∧ I s) (fun a s => Q a s ∧ I s) s := by
  induction p generalizing s with
  | ret a => exact ⟨hp, h0⟩
  | call o k ih => exact ⟨⟨hp.1, h0⟩, ih _ hp.2 (hstep o s hp.1 h0)⟩

theorem Sat.inv {I : σ → Prop} (hp : p.Sat h ok Q s) (h0 : I s)
    (hstep : ∀ o s, ok o s → I s → I (h o s).2) : I (p.run h s).2 :=
  (hp.keep h0 hstep).result.2

/-- Handlers that agree on the calls of a run make the same run. -/
theorem Sat.run_congr (hp : p.Sat h (fun o s => h o s = h' o s) Q s) : p.run h s = p.run h' s := by
  induction p generalizing s with
  | ret a => rfl
  | call o k ih => rw [run_call, run_call, ← hp.1, ih _ hp.2]

/-- The operations of a run, each with the state it is called in. -/
def trace (h : Handler Res σ) : Prog Res α → σ → List (Op × σ)
  | ret _, _ => []
  | call o k, s => (o, s) :: (k (h o s).1).trace h (h o s).2

theorem Sat.trace (hp : p.Sat h ok Q s) : ∀ x ∈ p.trace h s, ok x.1 x.2 := by
  induction p generalizing s with
  | ret a =>
    intro x hx
    cases hx
  | call o k ih =>
    intro x hx
    rcases List.mem_cons.mp hx with rfl | hx
    · exact hp.1
    · exact ih _ hp.2 x hx

/-- What held at the start and does not hold at the end was ended by an operation. -/
theorem exists_trace {I : σ → Prop} {P : Op → Prop} (h0 : I s)
    (hstep : ∀ o s, ¬ P o → I s → I (h o s).2) (hend : ¬ I (p.run h s).2) :
    ∃ x ∈ p.trace h s, P x.1 := by
  induction p generalizing s with
  | ret a => exact absurd h0 hend
  | call o k ih =>
    by_cases ho : P o
    · exact ⟨(o, s), List.mem_cons_self, ho⟩
    · obtain ⟨x, hx, hp⟩ := ih _ (hstep o s ho h0) hend
      exact ⟨x, List.mem_cons_of_mem _ hx, hp⟩

/-- What follows a call of a run is a run of its own. -/
theorem Sat.suffix {x : Op × σ} {pre post : List (Op × σ)} (hp : p.Sat h ok Q s)
    (ht : p.trace h s = pre ++ x :: post) : ok x.1 x.2 ∧ ∃ q : Prog Res α,
      post = q.trace h (h x.1 x.2).2 ∧ q.Sat h ok Q (h x.1 x.2).2 ∧
      q.run h (h x.1 x.2).2 = p.run h s := by
  induction p generalizing s pre with
  | ret a => cases pre <;> cases ht
  | call o k ih =>
    cases pre with
    | nil =>
      obtain ⟨rfl, rfl⟩ := List.cons.inj ht
      exact ⟨hp.1, _, rfl, hp.2, rfl⟩
    | cons y pre =>
      obtain ⟨-, ht⟩ := List.cons.inj ht
      exact ih _ hp.2 ht

/-- What every allowed operation but those that `stop` keeps holds up to the first of these. -/
theorem Sat.keep_until {I : σ → Prop} {stop : Op → Prop} {x : Op × σ} {pre post : List (Op × σ)}
    (hp : p.Sat h ok Q s) (h0 : I s) (hstep : ∀ o s, ok o s → ¬ stop o → I s → I (h o s).2)
    (ht : p.trace h s = pre ++ x :: post) (hpre : ∀ y ∈ pre, ¬ stop y.1) : I x.2 := by
  induction p generalizing s pre with
  | ret a => cases pre <;> cases ht
  | call o k ih =>
    cases pre with
    | nil =>
      obtain ⟨rfl, -⟩ := List.cons.inj ht
      exact h0
    | cons y pre =>
      obtain ⟨rfl, hrest⟩ := List.cons.inj ht
      rw [List.forall_mem_cons] at hpre
      exact ih _ hp.2 (hstep _ _ hp.1 hpre.1 h0) hrest hpre.2

end Prog

end Lib

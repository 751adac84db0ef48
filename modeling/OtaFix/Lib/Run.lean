import Mathlib.Data.List.Induction

/-!
# Runs of a reactive system

A system is a step function on states and events. `Reach step ok s₀ es s`: the
events `es`, each allowed by `ok` in the state where it occurs, take `s₀` to
`s`. `ok` carries what the environment promises (a driver completes only what
it accepted); `fun _ _ => True` leaves the environment free.
-/

namespace Lib

variable {σ ε : Type*} {step : σ → ε → σ} {ok : σ → ε → Prop} {s₀ s : σ} {es : List ε}

inductive Reach (step : σ → ε → σ) (ok : σ → ε → Prop) (s₀ : σ) : List ε → σ → Prop where
  | init : Reach step ok s₀ [] s₀
  | snoc {es : List ε} {s : σ} (e : ε) : Reach step ok s₀ es s → ok s e →
      Reach step ok s₀ (es ++ [e]) (step s e)

namespace Reach

/-- The invariant rule: established at the start, kept by every allowed event. -/
theorem invariant {I : σ → Prop} (h : Reach step ok s₀ es s) (h0 : I s₀)
    (hstep : ∀ s e, I s → ok s e → I (step s e)) : I s := by
  induction h with
  | init => exact h0
  | snoc e _ hok ih => exact hstep _ e ih hok

theorem mono {ok' : σ → ε → Prop} (h : Reach step ok s₀ es s)
    (himp : ∀ s e, ok s e → ok' s e) : Reach step ok' s₀ es s := by
  induction h with
  | init => exact .init
  | snoc e _ hok ih => exact .snoc e ih (himp _ e hok)

/-- What holds of every event of the list may be asked of each where it occurs. -/
theorem and_forall {Q : ε → Prop} (h : Reach step ok s₀ es s) (hQ : ∀ e ∈ es, Q e) :
    Reach step (fun s e => ok s e ∧ Q e) s₀ es s := by
  induction h with
  | init => exact .init
  | snoc e _ hok ih =>
    exact .snoc e (ih fun x hx => hQ x (List.mem_append_left _ hx))
      ⟨hok, hQ e (List.mem_append_right _ List.mem_cons_self)⟩

/-- Every event list is a run of a free environment. -/
theorem of_foldl (step : σ → ε → σ) (s₀ : σ) (es : List ε) :
    Reach step (fun _ _ => True) s₀ es (es.foldl step s₀) := by
  induction es using List.reverseRecOn with
  | nil => exact .init
  | append_singleton es e ih => rw [List.foldl_append]; exact .snoc e ih trivial

end Reach

/-- Replay an event list, checking each event where it occurs. -/
def allowed (step : σ → ε → σ) (okb : σ → ε → Bool) : σ → List ε → Bool
  | _, [] => true
  | s, e :: es => okb s e && allowed step okb (step s e) es

theorem Reach.append_allowed (okb : σ → ε → Bool) (hok : ∀ s e, okb s e = true → ok s e)
    {pre : List ε} (h : Reach step ok s₀ pre s) (hall : allowed step okb s es = true) :
    Reach step ok s₀ (pre ++ es) (es.foldl step s) := by
  induction es generalizing s pre with
  | nil => simpa using h
  | cons e es ih =>
    rw [allowed, Bool.and_eq_true] at hall
    rw [List.append_cons]
    exact ih (.snoc e h (hok s e hall.1)) hall.2

theorem Reach.of_allowed (okb : σ → ε → Bool) (hok : ∀ s e, okb s e = true → ok s e)
    (hall : allowed step okb s₀ es = true) : Reach step ok s₀ es (es.foldl step s₀) :=
  append_allowed okb hok .init hall

end Lib

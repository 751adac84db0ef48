import Mathlib.Data.List.Basic

/-!
# Byte stuffing

A frame is a message between two delimiters. Inside it the delimiter and the escape symbol are
replaced by an escape sequence each, so that the delimiter stands for nothing else. A code of the
two sequences is a structure that carries what keeps them apart.
-/

namespace Lib

structure Stuffing (α : Type*) where
  stop : α
  esc : α
  stopCode : α
  escCode : α
  esc_ne : esc ≠ stop
  stopCode_ne : stopCode ≠ stop
  escCode_ne : escCode ≠ stop
  codes_ne : stopCode ≠ escCode

namespace Stuffing

variable {α : Type*} [DecidableEq α] (c : Stuffing α)

/-- The symbols that stand for `a` inside a frame. -/
def stuff (a : α) : List α :=
  if a = c.stop then [c.esc, c.stopCode] else if a = c.esc then [c.esc, c.escCode] else [a]

def body (p : List α) : List α := p.flatMap c.stuff

def frame (p : List α) : List α := c.stop :: c.body p ++ [c.stop]

theorem stuff_stop : c.stuff c.stop = [c.esc, c.stopCode] := if_pos rfl

theorem stuff_esc : c.stuff c.esc = [c.esc, c.escCode] := by
  rw [stuff, if_neg c.esc_ne, if_pos rfl]

theorem stuff_plain {a : α} (h1 : a ≠ c.stop) (h2 : a ≠ c.esc) : c.stuff a = [a] := by
  rw [stuff, if_neg h1, if_neg h2]

@[simp] theorem body_nil : c.body [] = [] := rfl

theorem body_cons (a : α) (p : List α) : c.body (a :: p) = c.stuff a ++ c.body p := rfl

/-- The delimiter does not occur inside a frame. -/
theorem stop_not_mem_body (p : List α) : c.stop ∉ c.body p := by
  intro h
  obtain ⟨a, -, ha⟩ := List.mem_flatMap.mp h
  unfold stuff at ha
  split at ha
  · simp only [List.mem_cons, List.not_mem_nil, or_false] at ha
    exact ha.elim (fun h => c.esc_ne h.symm) fun h => c.stopCode_ne h.symm
  · split at ha
    · simp only [List.mem_cons, List.not_mem_nil, or_false] at ha
      exact ha.elim (fun h => c.esc_ne h.symm) fun h => c.escCode_ne h.symm
    · rename_i hne _
      exact hne (List.mem_singleton.mp ha).symm

end Stuffing

end Lib

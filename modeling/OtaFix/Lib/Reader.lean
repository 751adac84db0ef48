import Mathlib.Data.List.Basic

/-!
# Reading a list to its end

`whileInput turn a b` is the parser loop `while (p != end)`: `turn` folds the
head of the input into the accumulator and returns what is left. It runs on
fuel, the length of the input; `whileInput_eq` is the loop law without it, for
any `turn` that consumes input. `whileInput_iff` reads such a loop as a grammar: the
input is the concatenation of the encodings of some items, folded one by one.
-/

namespace Lib

variable {α β : Type*} {turn : α → List β → Option (α × List β)}

def inputLoop (turn : α → List β → Option (α × List β)) : Nat → α → List β → Option α
  | 0, a, _ => some a
  | fuel + 1, a, [] => inputLoop turn fuel a []
  | fuel + 1, a, b :: bs => (turn a (b :: bs)).bind fun r => inputLoop turn fuel r.1 r.2

def whileInput (turn : α → List β → Option (α × List β)) (a : α) (b : List β) : Option α :=
  inputLoop turn b.length a b

@[simp] theorem inputLoop_nil (n : Nat) (a : α) : inputLoop turn n a [] = some a := by
  induction n with
  | zero => rfl
  | succ n ih => exact ih

theorem inputLoop_fuel (hturn : ∀ a b a' b', turn a b = some (a', b') → b'.length < b.length)
    {n k : Nat} {a : α} {b : List β} (hn : b.length ≤ n) (hk : b.length ≤ k) :
    inputLoop turn n a b = inputLoop turn k a b := by
  induction n generalizing k a b with
  | zero =>
    have : b = [] := List.length_eq_zero_iff.mp (by omega)
    simp [this]
  | succ n ih =>
    cases b with
    | nil => simp
    | cons c b =>
      cases k with
      | zero => simp at hk
      | succ k =>
        refine Option.bind_congr fun r hr => ?_
        have := hturn a (c :: b) r.1 r.2 hr
        exact ih (by omega) (by omega)

theorem whileInput_eq (hturn : ∀ a b a' b', turn a b = some (a', b') → b'.length < b.length)
    (a : α) (b : List β) :
    whileInput turn a b =
      if b.length = 0 then some a else (turn a b).bind fun r => whileInput turn r.1 r.2 := by
  cases b with
  | nil => rfl
  | cons c b =>
    refine Option.bind_congr fun r hr => ?_
    have := hturn a (c :: b) r.1 r.2 hr
    exact inputLoop_fuel hturn (by simp at this; omega) (Nat.le_refl _)

/-! ## Concatenated encodings -/

/-- The input is made of the encodings of the items, in order. -/
inductive Concat {γ : Type*} (E : γ → List β → Prop) : List γ → List β → Prop where
  | nil : Concat E [] []
  | cons {x : γ} {xs : List γ} {l r : List β} (hx : E x l) (hxs : Concat E xs r) :
      Concat E (x :: xs) (l ++ r)

variable {γ : Type*} {E : γ → List β → Prop} {step : α → γ → Option α}

/-- A loop whose turns take one encoded item each folds the items of its input. -/
theorem whileInput_iff (hE : ∀ x l, E x l → l ≠ [])
    (hturn : ∀ a b a' p, turn a b = some (a', p) ↔
      ∃ x l, E x l ∧ b = l ++ p ∧ step a x = some a') {a a' : α} {b : List β} :
    whileInput turn a b = some a' ↔ ∃ xs, Concat E xs b ∧ xs.foldlM step a = some a' := by
  have hless : ∀ a b a' p, turn a b = some (a', p) → p.length < b.length := by
    intro a b a' p h
    obtain ⟨x, l, hx, rfl, -⟩ := (hturn a b a' p).mp h
    have := List.length_pos_iff.mpr (hE x l hx)
    rw [List.length_append]
    omega
  generalize hn : b.length = n
  induction n using Nat.strongRecOn generalizing a b with
  | ind n ih =>
    rw [whileInput_eq hless]
    constructor
    · intro h
      split_ifs at h with h0
      · rw [List.length_eq_zero_iff.mp h0]
        exact ⟨[], .nil, h⟩
      · obtain ⟨⟨a1, p⟩, ht, h⟩ := Option.bind_eq_some_iff.mp h
        have hlt := hless _ _ _ _ ht
        obtain ⟨xs, hxs, hfold⟩ := (ih p.length (by omega) rfl).mp h
        obtain ⟨x, l, hx, rfl, hstep⟩ := (hturn _ _ _ _).mp ht
        refine ⟨x :: xs, .cons hx hxs, ?_⟩
        rw [List.foldlM_cons, hstep]
        exact hfold
    · rintro ⟨xs, hxs, hfold⟩
      cases hxs with
      | nil =>
        rw [if_pos List.length_nil]
        exact hfold
      | @cons x xs l r hx hxs =>
        have hpos := List.length_pos_iff.mpr (hE x l hx)
        rw [List.length_append] at hn
        rw [List.length_append, if_neg (by omega)]
        rw [List.foldlM_cons] at hfold
        obtain ⟨a1, hstep, hfold⟩ := Option.bind_eq_some_iff.mp hfold
        refine Option.bind_eq_some_iff.mpr ⟨(a1, r), (hturn _ _ _ _).mpr ⟨x, l, hx, rfl, hstep⟩, ?_⟩
        exact (ih r.length (by omega) rfl).mpr ⟨xs, hxs, hfold⟩

variable {E' : γ → List β → Prop} {xs xs' : List γ} {b b' : List β}

theorem concat_nil_iff : Concat E [] b ↔ b = [] := by
  constructor
  · intro h
    cases h
    rfl
  · rintro rfl
    exact .nil

theorem concat_cons_iff {x : γ} :
    Concat E (x :: xs) b ↔ ∃ l r, E x l ∧ Concat E xs r ∧ b = l ++ r := by
  constructor
  · intro h
    cases h with
    | cons hx hxs => exact ⟨_, _, hx, hxs, rfl⟩
  · rintro ⟨l, r, hx, hxs, rfl⟩
    exact .cons hx hxs

theorem concat_singleton {x : γ} (h : E x b) : Concat E [x] b := by
  have hone := Concat.cons h .nil
  rwa [List.append_nil] at hone

theorem Concat.encoded (h : Concat E xs b) : ∀ x ∈ xs, ∃ l, E x l := by
  induction h with
  | nil => nofun
  | cons hx _ ih => exact List.forall_mem_cons.mpr ⟨⟨_, hx⟩, ih⟩

theorem Concat.mono (hE : ∀ x l, E x l → E' x l) (h : Concat E xs b) : Concat E' xs b := by
  induction h with
  | nil => exact .nil
  | cons hx _ ih => exact .cons (hE _ _ hx) ih

theorem Concat.ne_nil (hne : ∀ x l, E x l → l ≠ []) (h : Concat E xs b) (hxs : xs ≠ []) : b ≠ [] := by
  cases h with
  | nil => exact absurd rfl hxs
  | cons hx _ => exact List.append_ne_nil_of_left_ne_nil (hne _ _ hx) _

/-- Where no encoding begins another, an input has one reading. -/
theorem Concat.unique (hne : ∀ x l, E x l → l ≠ [])
    (hE : ∀ x x' l l' r r', E x l → E x' l' → l ++ r = l' ++ r' → x = x' ∧ r = r')
    (h : Concat E xs b) (h' : Concat E xs' b) : xs = xs' := by
  induction h generalizing xs' with
  | nil =>
    generalize hb : ([] : List β) = b at h'
    cases h' with
    | nil => rfl
    | cons hx _ => exact absurd (List.append_eq_nil_iff.mp hb.symm).1 (hne _ _ hx)
  | @cons x xs l r hx _ ih =>
    generalize hb : l ++ r = b at h'
    cases h' with
    | nil => exact absurd (List.append_eq_nil_iff.mp hb).1 (hne _ _ hx)
    | cons hx' hxs' =>
      obtain ⟨rfl, rfl⟩ := hE _ _ _ _ _ _ hx hx' hb
      rw [ih hxs']

/-! ## The shortest encoding -/

/-- `l` is shorter than `l'`, or it is `l'`. -/
def Covers (l l' : List β) : Prop := l.length ≤ l'.length ∧ (l.length = l'.length → l = l')

theorem Covers.refl (l : List β) : Covers l l := ⟨Nat.le_refl _, fun _ => rfl⟩

theorem Covers.append {l l' r r' : List β} (h : Covers l l') (hr : Covers r r') :
    Covers (l ++ r) (l' ++ r') := by
  have h1 := h.1
  have h2 := hr.1
  unfold Covers
  rw [List.length_append, List.length_append]
  refine ⟨by omega, fun heq => ?_⟩
  rw [h.2 (by omega), hr.2 (by omega)]

theorem Concat.covers (hE : ∀ x l l', E x l → E' x l' → Covers l l') (h : Concat E xs b)
    (h' : Concat E' xs b') : Covers b b' := by
  induction h generalizing b' with
  | nil =>
    cases h'
    exact .refl _
  | cons hx _ ih =>
    cases h' with
    | cons hx' hxs' => exact (hE _ _ _ hx hx').append (ih hxs')

theorem Concat.exists (hE : ∀ x l, E x l → ∃ l', E' x l') (h : Concat E xs b) :
    ∃ b', Concat E' xs b' := by
  induction h with
  | nil => exact ⟨[], .nil⟩
  | cons hx _ ih =>
    obtain ⟨l', hl'⟩ := hE _ _ hx
    obtain ⟨r', hr'⟩ := ih
    exact ⟨l' ++ r', .cons hl' hr'⟩

end Lib

import Mathlib.Data.List.GetD
import Mathlib.Logic.Function.Iterate

/-!
# Checksums as folds

A checksum is a fold of a step function over the data. Where the step is injective
in the state, a difference that has reached the state stays there; where `n`
symbols determine the change of state (`BlockInjective`), a difference within `n`
consecutive symbols reaches it. The steps of a CRC are additive for exclusive or,
and such a map is injective once only zero is mapped to zero.
-/

namespace Lib

/-! ## Folds -/

section Fold

variable {σ β : Type*} {step : σ → β → σ} {n : Nat}

theorem foldl_injective (hstate : ∀ b, Function.Injective (step · b)) (d : List β) :
    Function.Injective fun s => d.foldl step s := by
  induction d with
  | nil => exact Function.injective_id
  | cons b d ih => exact ih.comp (hstate b)

/-- From any state, `n` symbols are determined by the state they lead to. -/
def BlockInjective (step : σ → β → σ) (n : Nat) : Prop :=
  ∀ s (d d' : List β), d.length = n → d'.length = n → d.foldl step s = d'.foldl step s → d = d'

theorem blockInjective_one (hsymbol : ∀ s, Function.Injective (step s)) :
    BlockInjective step 1 := by
  intro s d d' hd hd' heq
  obtain ⟨b, rfl⟩ := List.length_eq_one_iff.mp hd
  obtain ⟨b', rfl⟩ := List.length_eq_one_iff.mp hd'
  rw [hsymbol s heq]

/-- Fewer symbols are determined as well. -/
theorem BlockInjective.mono [Inhabited β] (h : BlockInjective step n) {k : Nat} (hk : k ≤ n) :
    BlockInjective step k := by
  intro s d d' hd hd' heq
  have happend : d ++ List.replicate (n - k) default = d' ++ List.replicate (n - k) default := by
    apply h s
    · rw [List.length_append, List.length_replicate, hd]
      omega
    · rw [List.length_append, List.length_replicate, hd']
      omega
    · rw [List.foldl_append, List.foldl_append, heq]
  exact (List.append_inj happend (hd.trans hd'.symm)).1

/-- Two lists that differ, within `n` consecutive places only. -/
structure DiffersWithin (n : Nat) (l l' : List β) : Prop where
  length : l.length = l'.length
  ne : l ≠ l'
  window : ∃ p, l.take p = l'.take p ∧ l.drop (p + n) = l'.drop (p + n)

/-- One element changed. -/
theorem differsWithin_set {l : List β} {i : Nat} {v d : β} (hn : 0 < n) (hi : i < l.length)
    (hv : v ≠ l.getD i d) : DiffersWithin n l (l.set i v) := by
  refine ⟨List.length_set.symm, fun heq => hv ?_, i, ?_, ?_⟩
  · rw [heq, List.getD_eq_getElem _ _ (by rwa [List.length_set]), List.getElem_set_self]
  · rw [List.take_set_of_le (Nat.le_refl i)]
  · rw [List.drop_set_of_lt (by omega)]

theorem DiffersWithin.foldl_ne [Inhabited β] {l l' : List β} (hdiff : DiffersWithin n l l')
    (hstate : ∀ b, Function.Injective (step · b)) (hblock : BlockInjective step n) (s : σ) :
    l.foldl step s ≠ l'.foldl step s := by
  obtain ⟨p, hpre, hpost⟩ := hdiff.window
  intro heq
  apply hdiff.ne
  have hsplit : ∀ x : List β, x = x.take p ++ ((x.drop p).take n ++ x.drop (p + n)) := by
    intro x
    rw [← List.drop_drop, List.take_append_drop, List.take_append_drop]
  rw [hsplit l, hsplit l', hpre, hpost] at heq ⊢
  rw [List.foldl_append, List.foldl_append, List.foldl_append, List.foldl_append] at heq
  have hmid := foldl_injective hstate _ heq
  have hlen := hdiff.length
  have hmin : min n (l.length - p) ≤ n := Nat.min_le_left _ _
  rw [hblock.mono hmin _ _ _ (by rw [List.length_take, List.length_drop])
    (by rw [List.length_take, List.length_drop, hlen]) hmid]

end Fold

/-! ## Exclusive or -/

section Xor

variable {w : Nat} {f g : BitVec w → BitVec w}

/-- Additive for exclusive or. -/
def XorHom (f : BitVec w → BitVec w) : Prop := ∀ x y, f (x ^^^ y) = f x ^^^ f y

theorem XorHom.comp (hf : XorHom f) (hg : XorHom g) : XorHom (f ∘ g) := by
  intro x y
  simp only [Function.comp_apply]
  rw [hg, hf]

theorem XorHom.iterate (hf : XorHom f) (n : Nat) : XorHom f^[n] := by
  induction n with
  | zero => exact fun x y => rfl
  | succ n ih => exact ih.comp hf

theorem XorHom.injective (hf : XorHom f) (hker : ∀ x, f x = 0 → x = 0) :
    Function.Injective f := by
  intro x y heq
  rw [← BitVec.xor_eq_zero_iff]
  apply hker
  rw [hf, heq, BitVec.xor_self]
  rfl

/-- `x ^^^ g x` determines `x` where `g` dies out. -/
theorem XorHom.xor_injective (hg : XorHom g) {n : Nat} (hnil : ∀ x, g^[n] x = 0) :
    Function.Injective fun x => x ^^^ g x := by
  have hom : XorHom fun x => x ^^^ g x := by
    intro x y
    simp only [hg x y]
    ac_rfl
  apply hom.injective
  intro x hx
  have hfix : g x = x := (BitVec.xor_eq_zero_iff.mp hx).symm
  rw [← Function.iterate_fixed hfix n]
  exact hnil x

end Xor

end Lib

import Mathlib.Data.List.Basic
import Mathlib.Tactic.Ring
import OtaFix.Lib.Reader

/-!
# Protobuf messages

The wire format as a grammar: a varint is a number in base 128, least significant
digit first, and a message is the concatenation of its records. The grammar is over
a relation `V v l`, the varints that are allowed: `Varint32` has all of those with at
most five bytes and 32 bits, `Shortest` the one without a leading zero digit. Every
encoding is at least as long as the one with the shortest varints, and of the same
length only if it is that one (`Covers`).
-/

namespace Lib.Protobuf

abbrev Byte := BitVec 8

/-! ## Varints -/

/-- Base 128; every byte but the last carries the continuation bit. -/
inductive Varint : Nat → List Byte → Prop where
  | last {c : Byte} (h : c.toNat < 128) : Varint c.toNat [c]
  | more {c : Byte} {v : Nat} {l : List Byte} (h : 128 ≤ c.toNat) (hl : Varint v l) :
      Varint (c.toNat - 128 + 128 * v) (c :: l)

/-- A varint of at most five bytes and 32 bits. -/
structure Varint32 (v : Nat) (l : List Byte) : Prop where
  varint : Varint v l
  length_le : l.length ≤ 5
  lt : v < 2 ^ 32

/-- A varint whose last digit is not zero, unless it is the only one. -/
structure Shortest (v : Nat) (l : List Byte) : Prop extends Varint32 v l where
  minimal : l.length = 1 ∨ l.getLast? ≠ some 0

theorem Varint.ne_nil {v : Nat} {l : List Byte} (h : Varint v l) : l ≠ [] := by
  cases h <;> exact List.cons_ne_nil _ _

theorem Varint.lt_pow {v : Nat} {l : List Byte} (h : Varint v l) : v < 128 ^ l.length := by
  induction h with
  | last h => simpa using h
  | @more c v l h hl ih =>
    have hc := c.isLt
    rw [List.length_cons, pow_succ]
    omega

/-- The last digit alone is worth `128 ^ (length - 1)`. -/
theorem Varint.pow_le {v : Nat} {l : List Byte} (h : Varint v l) (h0 : l.getLast? ≠ some 0) :
    128 ^ (l.length - 1) ≤ v := by
  induction h with
  | @last c h =>
    have hne : c.toNat ≠ 0 := fun hz => h0 (congrArg some (BitVec.eq_of_toNat_eq hz))
    simp only [List.length_singleton, Nat.sub_self, pow_zero]
    omega
  | @more c v l h hl ih =>
    have hlen := List.length_pos_iff.mpr hl.ne_nil
    rw [List.getLast?_cons_of_ne_nil hl.ne_nil] at h0
    have hle := ih h0
    rw [List.length_cons, Nat.add_sub_cancel, show l.length = l.length - 1 + 1 by omega, pow_succ]
    omega

/-- One string of each length. -/
theorem Varint.eq_of_length {v : Nat} {l l' : List Byte} (h : Varint v l) (h' : Varint v l')
    (hlen : l.length = l'.length) : l = l' := by
  induction h generalizing l' with
  | @last c h =>
    generalize hw : c.toNat = w at h'
    cases h' with
    | last h' => rw [BitVec.eq_of_toNat_eq hw]
    | more h' hl =>
      have := List.length_pos_iff.mpr hl.ne_nil
      simp only [List.length_cons, List.length_nil] at hlen
      omega
  | @more c v l h hl ih =>
    generalize hw : c.toNat - 128 + 128 * v = w at h'
    have hc := c.isLt
    cases h' with
    | last h' =>
      have := List.length_pos_iff.mpr hl.ne_nil
      simp only [List.length_cons, List.length_nil] at hlen
      omega
    | @more c' v' l' h' hl' =>
      have hc' := c'.isLt
      have hv : v = v' := by omega
      subst hv
      rw [ih hl' (by simpa using hlen), BitVec.eq_of_toNat_eq (show c.toNat = c'.toNat by omega)]

/-- A varint is not the beginning of another. -/
theorem Varint.cancel {v v' : Nat} {l l' r r' : List Byte} (h : Varint v l) (h' : Varint v' l')
    (heq : l ++ r = l' ++ r') : v = v' ∧ l = l' ∧ r = r' := by
  induction h generalizing v' l' with
  | @last c h =>
    cases h' with
    | last h' =>
      obtain ⟨rfl, rfl⟩ := List.cons.inj heq
      exact ⟨rfl, rfl, rfl⟩
    | more h' hl =>
      obtain ⟨rfl, -⟩ := List.cons.inj heq
      omega
  | @more c v l h hl ih =>
    cases h' with
    | last h' =>
      obtain ⟨rfl, -⟩ := List.cons.inj heq
      omega
    | more h' hl' =>
      obtain ⟨rfl, htail⟩ := List.cons.inj heq
      obtain ⟨rfl, rfl, rfl⟩ := ih hl' htail
      exact ⟨rfl, rfl, rfl⟩

/-- A leading zero digit more. -/
theorem Varint.overlong {v : Nat} {l : List Byte} (h : Varint v l) :
    ∃ l', Varint v l' ∧ l'.length = l.length + 1 := by
  induction h with
  | @last c h =>
    refine ⟨[c + 128, 0], ?_, rfl⟩
    have hc : (c + 128).toNat = c.toNat + 128 := by
      rw [BitVec.toNat_add]
      exact Nat.mod_eq_of_lt (by simp; omega)
    have hzero : Varint 0 [0] := .last (show (0 : Byte).toNat < 128 by decide)
    have hmore : Varint ((c + 128).toNat - 128 + 128 * 0) [c + 128, 0] := .more (by omega) hzero
    rwa [hc, Nat.add_sub_cancel, Nat.mul_zero, Nat.add_zero] at hmore
  | @more c v l h hl ih =>
    obtain ⟨l', hl', hlen⟩ := ih
    exact ⟨c :: l', .more h hl', by rw [List.length_cons, hlen, List.length_cons]⟩

/-- Every number has a varint without leading zero digits. -/
theorem exists_varint (v : Nat) :
    ∃ l, Varint v l ∧ (l.length = 1 ∨ l.getLast? ≠ some 0) ∧ (v ≠ 0 → l.getLast? ≠ some 0) := by
  induction v using Nat.strongRecOn with
  | ind v ih =>
    by_cases hv : v < 128
    · have hnat : (BitVec.ofNat 8 v).toNat = v := by
        rw [BitVec.toNat_ofNat]
        exact Nat.mod_eq_of_lt (by omega)
      refine ⟨[BitVec.ofNat 8 v], ?_, .inl rfl, fun hne h0 => hne ?_⟩
      · have hlast : Varint (BitVec.ofNat 8 v).toNat [BitVec.ofNat 8 v] := .last (by omega)
        rwa [hnat] at hlast
      · have hz : BitVec.ofNat 8 v = 0 := Option.some.inj h0
        rw [← hnat, hz]
        rfl
    · obtain ⟨l, hl, -, hlast⟩ := ih (v / 128) (by omega)
      have hnat : (BitVec.ofNat 8 (v % 128 + 128)).toNat = v % 128 + 128 := by
        rw [BitVec.toNat_ofNat]
        exact Nat.mod_eq_of_lt (by omega)
      have h0 : (BitVec.ofNat 8 (v % 128 + 128) :: l).getLast? ≠ some 0 := by
        rw [List.getLast?_cons_of_ne_nil hl.ne_nil]
        exact hlast (by omega)
      refine ⟨BitVec.ofNat 8 (v % 128 + 128) :: l, ?_, .inr h0, fun _ => h0⟩
      have hmore : Varint ((BitVec.ofNat 8 (v % 128 + 128)).toNat - 128 + 128 * (v / 128))
          (BitVec.ofNat 8 (v % 128 + 128) :: l) := .more (by omega) hl
      rwa [hnat, Nat.add_sub_cancel, show v % 128 + 128 * (v / 128) = v by omega] at hmore

theorem exists_shortest {v : Nat} (hv : v < 2 ^ 32) : ∃ l, Shortest v l := by
  obtain ⟨l, hl, hmin, -⟩ := exists_varint v
  refine ⟨l, ⟨hl, ?_, hv⟩, hmin⟩
  rcases hmin with h1 | h0
  · omega
  · have hle : 128 ^ (l.length - 1) < 128 ^ 5 := lt_of_le_of_lt (hl.pow_le h0) (by omega)
    have := (Nat.pow_lt_pow_iff_right (by decide)).mp hle
    omega

theorem Shortest.length_le_of_le {v v' : Nat} {l l' : List Byte} (h : Shortest v l)
    (h' : Varint v' l') (hle : v ≤ v') : l.length ≤ l'.length := by
  rcases h.minimal with h1 | h0
  · have := List.length_pos_iff.mpr h'.ne_nil
    omega
  · have hlt : 128 ^ (l.length - 1) < 128 ^ l'.length :=
      lt_of_le_of_lt ((h.varint.pow_le h0).trans hle) h'.lt_pow
    have := (Nat.pow_lt_pow_iff_right (by decide)).mp hlt
    omega

theorem Shortest.covers {v : Nat} {l l' : List Byte} (h : Shortest v l) (h' : Varint v l') :
    Covers l l' :=
  ⟨h.length_le_of_le h' (Nat.le_refl _), h.varint.eq_of_length h'⟩

/-- A length prefix grows with what it counts. -/
theorem covers_prefixed {b b' l l' : List Byte} (hb : Covers b b') (h : Shortest b.length l)
    (h' : Varint b'.length l') : Covers (l ++ b) (l' ++ b') := by
  have h1 := hb.1
  have h2 := h.length_le_of_le h' h1
  unfold Covers
  rw [List.length_append, List.length_append]
  refine ⟨by omega, fun heq => ?_⟩
  obtain rfl := hb.2 (by omega)
  rw [(h.covers h').2 (by omega)]

/-! ## Messages -/

/-- The two wire types in use. -/
inductive Value where
  | varint (v : Nat)
  | bytes (b : List Byte)
  deriving DecidableEq, Repr

section Records

variable (V : Nat → List Byte → Prop)

/-- A key, which holds the field number and the wire type, and a value. -/
inductive Record : Nat × Value → List Byte → Prop where
  | varint {field v : Nat} {k l : List Byte} (hk : V (field * 8) k) (hl : V v l) :
      Record (field, .varint v) (k ++ l)
  | bytes {field : Nat} {k l b : List Byte} (hk : V (field * 8 + 2) k) (hl : V b.length l) :
      Record (field, .bytes b) (k ++ (l ++ b))

variable {V} in
theorem record_varint_iff {field v : Nat} {b : List Byte} : Record V (field, .varint v) b ↔
    ∃ k l, V (field * 8) k ∧ V v l ∧ b = k ++ l := by
  constructor
  · intro h
    cases h with
    | varint hk hl => exact ⟨_, _, hk, hl, rfl⟩
  · rintro ⟨k, l, hk, hl, rfl⟩
    exact .varint hk hl

variable {V} in
theorem record_bytes_iff {field : Nat} {c b : List Byte} : Record V (field, .bytes c) b ↔
    ∃ k l, V (field * 8 + 2) k ∧ V c.length l ∧ b = k ++ (l ++ c) := by
  constructor
  · intro h
    cases h with
    | bytes hk hl => exact ⟨_, _, hk, hl, rfl⟩
  · rintro ⟨k, l, hk, hl, rfl⟩
    exact .bytes hk hl

def Message (fields : List (Nat × Value)) (b : List Byte) : Prop := Concat (Record V) fields b

/-- A packed repeated field. -/
def Packed (vs : List Nat) (b : List Byte) : Prop := Concat V vs b

end Records

theorem Record.ne_nil {x : Nat × Value} {l : List Byte} (h : Record Varint32 x l) : l ≠ [] := by
  cases h with
  | varint hk _ => exact List.append_ne_nil_of_left_ne_nil hk.varint.ne_nil _
  | bytes hk _ => exact List.append_ne_nil_of_left_ne_nil hk.varint.ne_nil _

/-- A record is not the beginning of another. -/
theorem Record.cancel {x x' : Nat × Value} {l l' r r' : List Byte} (h : Record Varint32 x l)
    (h' : Record Varint32 x' l') (heq : l ++ r = l' ++ r') : x = x' ∧ r = r' := by
  cases h with
  | @varint field v k l hk hl =>
    cases h' with
    | @varint field' v' k' l' hk' hl' =>
      simp only [List.append_assoc] at heq
      obtain ⟨hkey, -, heq⟩ := hk.varint.cancel hk'.varint heq
      obtain ⟨rfl, -, rfl⟩ := hl.varint.cancel hl'.varint heq
      rw [show field = field' by omega]
      exact ⟨rfl, rfl⟩
    | @bytes field' k' l' b' hk' hl' =>
      simp only [List.append_assoc] at heq
      obtain ⟨hkey, -, -⟩ := hk.varint.cancel hk'.varint heq
      omega
  | @bytes field k l b hk hl =>
    cases h' with
    | @varint field' v' k' l' hk' hl' =>
      simp only [List.append_assoc] at heq
      obtain ⟨hkey, -, -⟩ := hk.varint.cancel hk'.varint heq
      omega
    | @bytes field' k' l' b' hk' hl' =>
      simp only [List.append_assoc] at heq
      obtain ⟨hkey, -, heq⟩ := hk.varint.cancel hk'.varint heq
      obtain ⟨hlen, -, heq⟩ := hl.varint.cancel hl'.varint heq
      obtain ⟨rfl, rfl⟩ := List.append_inj heq hlen
      rw [show field = field' by omega]
      exact ⟨rfl, rfl⟩

theorem Message.unique {fields fields' : List (Nat × Value)} {b : List Byte}
    (h : Message Varint32 fields b) (h' : Message Varint32 fields' b) : fields = fields' :=
  Concat.unique (fun _ _ => Record.ne_nil) (fun _ _ _ _ _ _ => Record.cancel) h h'

theorem Packed.unique {vs vs' : List Nat} {b : List Byte} (h : Packed Varint32 vs b)
    (h' : Packed Varint32 vs' b) : vs = vs' :=
  Concat.unique (fun _ _ h => h.varint.ne_nil)
    (fun _ _ _ _ _ _ h h' heq => ⟨(h.varint.cancel h'.varint heq).1,
      (h.varint.cancel h'.varint heq).2.2⟩) h h'

end Lib.Protobuf

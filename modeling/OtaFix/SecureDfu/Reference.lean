import Mathlib.Data.List.Forall2
import Mathlib.Data.Nat.Bitwise
import Mathlib.Tactic.IntervalCases
import Mathlib.Tactic.Tauto
import OtaFix.Lib.Protobuf
import OtaFix.SecureDfu.Parse

/-!
# The init packet against the protobuf grammar

The reference is the wire format itself: `Packet` says that a string is a message
with one command, that the command is `INIT` with an `InitCommand`, and that this
is made of the items, and `Valid` what the items must say. The parser is such a
reading: a turn of its loop takes one record (`initField_iff`), its locals are a
summary of the items so far (`Summary`), and it accepts what the reference accepts, in
the forms it insists on: at most 256 bytes, the tags of the outer messages in
one byte each, and no empty packed list.
-/

namespace OtaFix.SecureDfu

open Lib Lib.Protobuf

/-! ## The reference -/

/-- A field of `InitCommand`; the digest stands as on the wire. -/
inductive Item where
  | scalar (field v : Nat)
  | sdReq (vs : List Nat)
  | hash (digest : List Byte)
  deriving DecidableEq, Repr

def Item.field : Item → Nat
  | scalar field _ => field
  | sdReq _ => 3
  | hash _ => 8

/-- The entries of the SoftDevice list, packed or not. -/
def Item.sdReqs : Item → List Nat
  | scalar 3 v => [v]
  | sdReq vs => vs
  | _ => []

def scalarFields : List Nat := [1, 2, 3, 4, 5, 6, 7, 9]

/-- The fields 1 to 9, with their wire types; the hash is `Hash{SHA256, bytes[32]}`. -/
inductive Typed (V : Nat → List Byte → Prop) : Nat × Value → Item → Prop where
  | scalar {field v : Nat} (h : field ∈ scalarFields) :
      Typed V (field, .varint v) (.scalar field v)
  | sdReq {vs : List Nat} {b : List Byte} (h : Packed V vs b) : Typed V (3, .bytes b) (.sdReq vs)
  | hash {digest : List Byte} (h : digest.length = 32) :
      Typed V (8, .bytes ([0x08, 0x03, 0x12, 0x20] ++ digest)) (.hash digest)

def InitCommand (V : Nat → List Byte → Prop) (items : List Item) (init : List Byte) : Prop :=
  ∃ fields, Message V fields init ∧ List.Forall₂ (Typed V) fields items

/-- `Packet{command}` around `Command{INIT, InitCommand}`. -/
def Packet (V : Nat → List Byte → Prop) (items : List Item) (data command : List Byte) : Prop :=
  Message V [(1, .bytes command)] data ∧
    ∃ init, Message V [(1, .varint 1), (2, .bytes init)] command ∧ InitCommand V items init

/-- What an init command must say; it announces an image of `size` bytes. -/
structure Valid (cfg : Platform) (items : List Item) (size : Nat) (digest : List Byte) : Prop where
  once : ∀ k, k ≠ 3 → (items.map Item.field).count k ≤ 1
  hwVersion : .scalar 2 cfg.hwVersion ∈ items
  sdReqs_le : ∀ v ∈ items.flatMap Item.sdReqs, v ≤ 0xFFFF
  fwid : cfg.fwid ∈ items.flatMap Item.sdReqs
  zero : ∀ k ∈ [4, 5, 6, 9], ∀ v, .scalar k v ∈ items → v = 0
  size_mem : .scalar 7 size ∈ items
  hash_mem : .hash digest ∈ items
  size_ge : 8 ≤ size
  size_le : size ≤ cfg.maxImage
  size_dvd : 4 ∣ size

/-! ## Varints and length prefixes -/

/-- The payload bits enter above those there are. -/
theorem or_shiftLeft {v c k : Nat} (hv : v < 2 ^ k) : v ||| c <<< k = v + c * 2 ^ k := by
  rw [Nat.shiftLeft_eq, Nat.or_comm, Nat.mul_comm, ← Nat.two_pow_add_eq_or_of_lt hv, Nat.add_comm]

theorem and_128_eq_zero (c : Byte) : c.toNat &&& 128 = 0 ↔ c.toNat < 128 := by
  revert c
  decide

theorem and_127 (n : Nat) : n &&& 127 = n % 128 := Nat.and_two_pow_sub_one_eq_mod n 7

theorem digit_bound {k d w : Nat} (hk : k < 4) (hd : d < 128) :
    (d + 128 * w) * 2 ^ (7 * k) < 2 ^ 32 ↔ w * 2 ^ (7 * (k + 1)) < 2 ^ 32 := by
  interval_cases k <;> norm_num <;> omega

theorem last_digit_bound {k d : Nat} (hk : k < 5) (hd : d < 128) :
    d * 2 ^ (7 * k) < 2 ^ 32 ↔ ¬ (7 * k = 28 ∧ 15 < d) := by
  interval_cases k <;> norm_num <;> omega

/-- After `k` bytes: what is left is a varint for the bits above. -/
theorem varintLoop_iff {k v n : Nat} {b p : List Byte} (hk : k ≤ 5) (hv : v < 2 ^ (7 * k)) :
    varintLoop v (7 * k) b = some (n, p) ↔ ∃ w l, Varint w l ∧ b = l ++ p ∧
      n = v + w * 2 ^ (7 * k) ∧ l.length + k ≤ 5 ∧ w * 2 ^ (7 * k) < 2 ^ 32 := by
  induction b generalizing k v with
  | nil =>
    refine ⟨(fun h => by cases h), ?_⟩
    rintro ⟨w, l, hl, heq, -⟩
    exact absurd (List.append_eq_nil_iff.mp heq.symm).1 hl.ne_nil
  | cons c b ih =>
    have hc := c.isLt
    simp only [varintLoop]
    rw [and_127, or_shiftLeft hv]
    by_cases h5 : k = 5
    · -- no sixth byte
      rw [if_neg (by omega)]
      refine ⟨(fun h => by cases h), ?_⟩
      rintro ⟨w, l, hl, -, -, hlen, -⟩
      have := List.length_pos_iff.mpr hl.ne_nil
      omega
    rw [if_pos (by omega)]
    by_cases hlast : c.toNat < 128
    · rw [if_pos ((and_128_eq_zero c).mpr hlast), Nat.mod_eq_of_lt hlast]
      have hone : Varint c.toNat [c] := .last hlast
      constructor
      · intro h
        split_ifs at h with hbig
        simp only [Option.some.injEq, Prod.mk.injEq] at h
        obtain ⟨rfl, rfl⟩ := h
        exact ⟨c.toNat, [c], hone, rfl, rfl, by simp; omega,
          (last_digit_bound (by omega) hlast).mpr hbig⟩
      · rintro ⟨w, l, hl, heq, hn, hlen, hlt⟩
        obtain ⟨rfl, rfl, rfl⟩ := hone.cancel hl heq
        rw [if_neg ((last_digit_bound (by omega) hlast).mp hlt), hn]
    · rw [if_neg (fun h => hlast ((and_128_eq_zero c).mp h)), show c.toNat % 128 = c.toNat - 128 by omega]
      by_cases h4 : k = 4
      · -- a fifth byte ends the varint
        rw [if_pos (by omega)]
        refine ⟨(fun h => by cases h), ?_⟩
        rintro ⟨w, l, hl, heq, -, hlen, -⟩
        cases hl with
        | last h =>
          obtain ⟨rfl, -⟩ := List.cons.inj heq
          omega
        | more h hl =>
          have := List.length_pos_iff.mpr hl.ne_nil
          rw [List.length_cons] at hlen
          omega
      have hstep : 2 ^ (7 * (k + 1)) = 128 * 2 ^ (7 * k) := by
        rw [Nat.mul_succ, pow_add, Nat.mul_comm]
        rfl
      have hdigit : (c.toNat - 128) * 2 ^ (7 * k) ≤ 127 * 2 ^ (7 * k) :=
        Nat.mul_le_mul_right _ (by omega)
      rw [if_neg (by omega), show 7 * k + 7 = 7 * (k + 1) by omega, ih (by omega) (by omega)]
      constructor
      · rintro ⟨w, l, hl, rfl, rfl, hlen, hlt⟩
        refine ⟨c.toNat - 128 + 128 * w, c :: l, .more (by omega) hl, rfl, ?_, ?_,
          (digit_bound (by omega) (by omega)).mpr hlt⟩
        · rw [hstep]
          ring
        · rw [List.length_cons]
          omega
      · rintro ⟨w, l, hl, heq, hn, hlen, hlt⟩
        cases hl with
        | last h =>
          obtain ⟨rfl, -⟩ := List.cons.inj heq
          omega
        | @more c' w l h hl =>
          obtain ⟨rfl, rfl⟩ := List.cons.inj heq
          refine ⟨w, l, hl, rfl, ?_, by rw [List.length_cons] at hlen; omega,
            (digit_bound (by omega) (by omega)).mp hlt⟩
          rw [hn, hstep]
          ring

theorem varint_iff {b p : List Byte} {n : Nat} :
    varint b = some (n, p) ↔ ∃ l, Varint32 n l ∧ b = l ++ p := by
  have h := varintLoop_iff (Nat.zero_le 5) (show 0 < 2 ^ (7 * 0) by decide) (b := b) (n := n) (p := p)
  rw [varint, h]
  constructor
  · rintro ⟨w, l, hl, heq, rfl, hlen, hlt⟩
    simp only [Nat.mul_zero, pow_zero, Nat.mul_one, Nat.zero_add, Nat.add_zero] at hlt hlen ⊢
    exact ⟨l, ⟨hl, hlen, hlt⟩, heq⟩
  · rintro ⟨l, hl, heq⟩
    refine ⟨n, l, hl.varint, heq, ?_, hl.length_le, ?_⟩
    · omega
    · simpa using hl.lt

theorem bytes_iff {b c p : List Byte} :
    bytes b = some (c, p) ↔ ∃ l, Varint32 c.length l ∧ b = l ++ (c ++ p) := by
  unfold bytes
  constructor
  · intro h
    obtain ⟨⟨n, q⟩, hv, htake⟩ := Option.bind_eq_some_iff.mp h
    obtain ⟨l, hl, rfl⟩ := varint_iff.mp hv
    simp only at htake
    split_ifs at htake with hlen
    simp only [Option.some.injEq, Prod.mk.injEq] at htake
    obtain ⟨rfl, rfl⟩ := htake
    refine ⟨l, ?_, by rw [List.take_append_drop]⟩
    rwa [List.length_take, Nat.min_eq_left (by omega)]
  · rintro ⟨l, hl, rfl⟩
    refine Option.bind_eq_some_iff.mpr ⟨(c.length, c ++ p), varint_iff.mpr ⟨l, hl, rfl⟩, ?_⟩
    simp

/-! ## The loops -/

def sdReqStep (fwid : Nat) (m : Bool) (v : Nat) : Option Bool :=
  if 0xFFFF < v then none else some (m || v == fwid)

theorem sdReqEntry_iff {fwid : Nat} {m m' : Bool} {b p : List Byte} :
    sdReqEntry fwid m b = some (m', p) ↔
      ∃ v l, Varint32 v l ∧ b = l ++ p ∧ sdReqStep fwid m v = some m' := by
  unfold sdReqEntry sdReqStep
  constructor
  · intro h
    obtain ⟨⟨v, q⟩, hv, hcheck⟩ := Option.bind_eq_some_iff.mp h
    obtain ⟨l, hl, rfl⟩ := varint_iff.mp hv
    simp only at hcheck
    split_ifs at hcheck with hbig
    simp only [Option.some.injEq, Prod.mk.injEq] at hcheck
    obtain ⟨rfl, rfl⟩ := hcheck
    exact ⟨v, l, hl, rfl, if_neg hbig⟩
  · rintro ⟨v, l, hl, rfl, hstep⟩
    refine Option.bind_eq_some_iff.mpr ⟨(v, p), varint_iff.mpr ⟨l, hl, rfl⟩, ?_⟩
    simp only
    split_ifs at hstep ⊢ with hbig
    rw [Option.some.inj hstep]

theorem sdReqLoop_iff {fwid : Nat} {m m' : Bool} {b : List Byte} :
    whileInput (sdReqEntry fwid) m b = some m' ↔
      ∃ vs, Packed Varint32 vs b ∧ vs.foldlM (sdReqStep fwid) m = some m' := by
  refine whileInput_iff (fun _ _ h => h.varint.ne_nil) ?_
  intro m b m' p
  exact sdReqEntry_iff

/-- The list is checked entry by entry. -/
theorem foldlM_sdReqStep {fwid : Nat} {vs : List Nat} {m m' : Bool} :
    vs.foldlM (sdReqStep fwid) m = some m' ↔
      (∀ v ∈ vs, v ≤ 0xFFFF) ∧ m' = (m || decide (fwid ∈ vs)) := by
  induction vs generalizing m with
  | nil => simp [eq_comm]
  | cons v vs ih =>
    rw [List.foldlM_cons]
    unfold sdReqStep
    by_cases hbig : 0xFFFF < v
    · rw [if_pos hbig]
      refine ⟨nofun, fun h => ?_⟩
      have := h.1 v (List.mem_cons_self ..)
      omega
    · rw [if_neg hbig]
      refine ih.trans ?_
      have hor : ((m || v == fwid) || decide (fwid ∈ vs)) = (m || decide (fwid ∈ v :: vs)) := by
        rw [Bool.or_assoc]
        congr 1
        rw [Bool.eq_iff_iff, Bool.or_eq_true, beq_iff_eq, decide_eq_true_eq, decide_eq_true_eq,
          List.mem_cons, eq_comm]
      rw [hor]
      simp only [List.forall_mem_cons]
      constructor
      · rintro ⟨h1, h2⟩
        exact ⟨⟨by omega, h1⟩, h2⟩
      · rintro ⟨⟨-, h1⟩, h2⟩
        exact ⟨h1, h2⟩

/-- One field, without its encoding. -/
def stepItem (cfg : Platform) (f : Fields) (x : Item) : Option Fields :=
  if f.seen &&& (1 <<< x.field) ≠ 0 ∧ x.field ≠ 3 then none
  else
    let f := { f with seen := f.seen ||| (1 <<< x.field) }
    match x with
    | .scalar field v => scalarField cfg f field v
    | .sdReq vs =>
      if vs = [] then none
      else (vs.foldlM (sdReqStep cfg.fwid) f.sdMatch).map fun m => { f with sdMatch := m }
    | .hash digest => some { f with candidate := { f.candidate with sha256 := digest.reverse } }

/-- The encoding of an item: a record of its wire type. -/
def Encodes (V : Nat → List Byte → Prop) (x : Item) (l : List Byte) : Prop :=
  ∃ field, Record V field l ∧ Typed V field x

theorem hash_iff {b digest : List Byte} : hash b = some digest ↔
    ∃ d, d.length = 32 ∧ b = [0x08, 0x03, 0x12, 0x20] ++ d ∧ digest = d.reverse := by
  unfold hash
  constructor
  · intro h
    split_ifs at h with hb
    refine ⟨b.drop 4, by rw [List.length_drop]; omega, ?_, (Option.some.inj h).symm⟩
    rw [← hb.2, List.take_append_drop]
  · rintro ⟨d, hd, rfl, rfl⟩
    rw [if_pos ⟨by rw [List.length_append, hd]; rfl, by simp⟩]
    simp

theorem scalarField_field {cfg : Platform} {f f' : Fields} {field v : Nat}
    (h : scalarField cfg f field v = some f') : field ∈ scalarFields := by
  unfold scalarField at h
  split at h <;> first | decide | cases h

theorem shiftRight_three (n : Nat) : n >>> 3 = n / 8 := Nat.shiftRight_eq_div_pow n 3

theorem and_seven (n : Nat) : n &&& 7 = n % 8 := Nat.and_two_pow_sub_one_eq_mod n 3

/-- A turn that succeeds has taken one item. -/
theorem initField_encodes {cfg : Platform} {f f' : Fields} {b p : List Byte}
    (h : initField cfg f b = some (f', p)) :
    ∃ x l, Encodes Varint32 x l ∧ b = l ++ p ∧ stepItem cfg f x = some f' := by
  unfold initField at h
  obtain ⟨⟨key, q⟩, hv, hrest⟩ := Option.bind_eq_some_iff.mp h
  obtain ⟨k, hk, rfl⟩ := varint_iff.mp hv
  simp only [shiftRight_three, and_seven] at hrest
  split_ifs at hrest with hkey hseen h8 h3 hwire
  · -- the hash
    obtain ⟨⟨c, r⟩, hb, hhash⟩ := Option.bind_eq_some_iff.mp hrest
    obtain ⟨digest, hd, hend⟩ := Option.bind_eq_some_iff.mp hhash
    obtain ⟨l, hl, rfl⟩ := bytes_iff.mp hb
    obtain ⟨d, hlen, rfl, rfl⟩ := hash_iff.mp hd
    simp only [Option.some.injEq, Prod.mk.injEq] at hend
    obtain ⟨rfl, rfl⟩ := hend
    rw [show key = 8 * 8 + 2 by omega] at hk hseen ⊢
    refine ⟨.hash d, _, ⟨_, .bytes hk hl, .hash hlen⟩, by simp only [List.append_assoc], ?_⟩
    exact if_neg hseen
  · -- the packed SoftDevice list
    obtain ⟨⟨c, r⟩, hb, hreq⟩ := Option.bind_eq_some_iff.mp hrest
    obtain ⟨l, hl, rfl⟩ := bytes_iff.mp hb
    simp only at hreq
    split_ifs at hreq with hempty
    obtain ⟨m, hm, hend⟩ := Option.bind_eq_some_iff.mp hreq
    obtain ⟨vs, hvs, hfold⟩ := sdReqLoop_iff.mp hm
    simp only [Option.some.injEq, Prod.mk.injEq] at hend
    obtain ⟨rfl, rfl⟩ := hend
    rw [show key = 3 * 8 + 2 by omega] at hk hseen ⊢
    refine ⟨.sdReq vs, _, ⟨_, .bytes hk hl, .sdReq hvs⟩, by simp only [List.append_assoc], ?_⟩
    have hne : vs ≠ [] := by
      rintro rfl
      cases hvs
      exact hempty rfl
    unfold stepItem
    rw [if_neg (by simp [Item.field])]
    simp only [if_neg hne]
    rw [hfold]
    rfl
  · -- a plain value
    obtain ⟨⟨v, r⟩, hv, hscalar⟩ := Option.bind_eq_some_iff.mp hrest
    obtain ⟨f1, hf, hend⟩ := Option.bind_eq_some_iff.mp hscalar
    obtain ⟨l, hl, rfl⟩ := varint_iff.mp hv
    simp only [Option.some.injEq, Prod.mk.injEq] at hend
    obtain ⟨rfl, rfl⟩ := hend
    have hfield := scalarField_field hf
    rw [show key = key / 8 * 8 by omega] at hk
    refine ⟨.scalar (key / 8) v, _, ⟨_, .varint hk hl, .scalar hfield⟩,
      by simp only [List.append_assoc], ?_⟩
    exact (if_neg hseen).trans hf

/-- And an item at the head is what a turn takes. -/
theorem Encodes.initField {cfg : Platform} {f f' : Fields} {x : Item} {l p : List Byte}
    (h : Encodes Varint32 x l) (hstep : stepItem cfg f x = some f') :
    initField cfg f (l ++ p) = some (f', p) := by
  obtain ⟨field, hrec, htyped⟩ := h
  unfold stepItem at hstep
  split_ifs at hstep with hseen
  unfold SecureDfu.initField
  cases htyped with
  | @scalar field v hfield =>
    cases hrec with
    | @varint _ _ k l hk hl =>
      have hle : 1 ≤ field ∧ field ≤ 9 ∧ field ≠ 8 := by
        simp only [scalarFields, List.mem_cons, List.not_mem_nil, or_false] at hfield
        omega
      rw [List.append_assoc]
      refine Option.bind_eq_some_iff.mpr ⟨(field * 8, l ++ p), varint_iff.mpr ⟨k, hk, rfl⟩, ?_⟩
      simp only [shiftRight_three, and_seven]
      rw [show field * 8 / 8 = field by omega]
      change ¬ (f.seen &&& (1 <<< field) ≠ 0 ∧ field ≠ 3) at hseen
      rw [if_neg (by omega), if_neg hseen, if_neg (by omega), if_neg (by omega), if_neg (by omega)]
      refine Option.bind_eq_some_iff.mpr ⟨(v, p), varint_iff.mpr ⟨l, hl, rfl⟩, ?_⟩
      exact Option.bind_eq_some_iff.mpr ⟨f', hstep, rfl⟩
  | @sdReq vs c hvs =>
    cases hrec with
    | @bytes _ k l _ hk hl =>
      simp only [List.append_assoc]
      refine Option.bind_eq_some_iff.mpr ⟨(3 * 8 + 2, l ++ (c ++ p)), varint_iff.mpr ⟨k, hk, rfl⟩, ?_⟩
      simp only [shiftRight_three, and_seven]
      rw [if_neg (by decide), if_neg (fun h => h.2 rfl), if_neg (by decide), if_pos (by decide)]
      refine Option.bind_eq_some_iff.mpr ⟨(c, p), bytes_iff.mpr ⟨l, hl, rfl⟩, ?_⟩
      simp only at hstep ⊢
      split_ifs at hstep with hempty
      obtain ⟨m, hfold, rfl⟩ := Option.map_eq_some_iff.mp hstep
      rw [if_neg (hvs.ne_nil (fun _ _ h => h.varint.ne_nil) hempty)]
      exact Option.bind_eq_some_iff.mpr ⟨m, sdReqLoop_iff.mpr ⟨vs, hvs, hfold⟩, rfl⟩
  | @hash d hlen =>
    cases hrec with
    | @bytes _ k l _ hk hl =>
      simp only [List.append_assoc]
      refine Option.bind_eq_some_iff.mpr ⟨(8 * 8 + 2, _), varint_iff.mpr ⟨k, hk, rfl⟩, ?_⟩
      simp only [shiftRight_three, and_seven]
      change ¬ (f.seen &&& (1 <<< ((8 * 8 + 2) / 8)) ≠ 0 ∧ (8 * 8 + 2) / 8 ≠ 3) at hseen
      rw [if_neg (by decide), if_neg hseen, if_pos (by decide)]
      refine Option.bind_eq_some_iff.mpr ⟨(_, p), bytes_iff.mpr ⟨l, hl, by
        simp only [List.append_assoc]⟩, ?_⟩
      refine Option.bind_eq_some_iff.mpr ⟨d.reverse, hash_iff.mpr ⟨d, hlen, rfl, rfl⟩, ?_⟩
      rw [← Option.some.inj hstep]
      rfl

theorem Encodes.ne_nil {x : Item} {l : List Byte} (h : Encodes Varint32 x l) : l ≠ [] := by
  obtain ⟨field, hrec, -⟩ := h
  exact hrec.ne_nil

theorem initLoop_iff {cfg : Platform} {f f' : Fields} {b : List Byte} :
    whileInput (initField cfg) f b = some f' ↔
      ∃ items, Concat (Encodes Varint32) items b ∧ items.foldlM (stepItem cfg) f = some f' := by
  refine whileInput_iff (fun _ _ => Encodes.ne_nil) ?_
  intro f b f' p
  constructor
  · exact initField_encodes
  · rintro ⟨x, l, hx, rfl, hstep⟩
    exact hx.initField hstep

/-! ## The items of an accepted command -/

/-- What is checked of an item on its own. -/
def itemOk (cfg : Platform) : Item → Prop
  | .scalar field v => field ∈ scalarFields ∧ (field = 2 → v = cfg.hwVersion) ∧
      (field = 3 → v ≤ 0xFFFF) ∧ (field ∈ [4, 5, 6, 9] → v = 0)
  | .sdReq vs => vs ≠ [] ∧ ∀ v ∈ vs, v ≤ 0xFFFF
  | .hash _ => True

/-- The locals behind an item. -/
def record (cfg : Platform) (f : Fields) (x : Item) : Fields where
  candidate := match x with
    | .scalar 7 v => { f.candidate with size := v }
    | .hash digest => { f.candidate with sha256 := digest.reverse }
    | _ => f.candidate
  seen := f.seen ||| (1 <<< x.field)
  sdMatch := f.sdMatch || decide (cfg.fwid ∈ x.sdReqs)

theorem and_one_shiftLeft_ne_zero (n k : Nat) : n &&& (1 <<< k) ≠ 0 ↔ n.testBit k = true := by
  rw [Nat.one_shiftLeft, Nat.and_two_pow]
  cases n.testBit k with
  | false => simp
  | true => simp

theorem scalarField_iff {cfg : Platform} {f f' : Fields} {field v : Nat} :
    scalarField cfg { f with seen := f.seen ||| (1 <<< field) } field v = some f' ↔
      itemOk cfg (.scalar field v) ∧ f' = record cfg f (.scalar field v) := by
  unfold scalarField
  split
  case h_9 _ h1 h2 h3 h4 h5 h6 h9 h7 =>
    refine ⟨nofun, fun h => ?_⟩
    have hfield : field ∈ scalarFields := h.1.1
    simp only [scalarFields, List.mem_cons, List.not_mem_nil, or_false] at hfield
    rcases hfield with e | e | e | e | e | e | e | e
    exacts [(h1 e).elim, (h2 e).elim, (h3 e).elim, (h4 e).elim, (h5 e).elim, (h6 e).elim,
      (h7 e).elim, (h9 e).elim]
  all_goals
    simp [itemOk, record, scalarFields, Item.field, Item.sdReqs, beq_eq_decide, eq_comm]

theorem stepItem_iff {cfg : Platform} {f f' : Fields} {x : Item} : stepItem cfg f x = some f' ↔
    (f.seen.testBit x.field = true → x.field = 3) ∧ itemOk cfg x ∧ f' = record cfg f x := by
  unfold stepItem
  by_cases hseen : f.seen &&& (1 <<< x.field) ≠ 0 ∧ x.field ≠ 3
  · rw [if_pos hseen]
    exact ⟨nofun, fun h => absurd (h.1 ((and_one_shiftLeft_ne_zero _ _).mp hseen.1)) hseen.2⟩
  rw [if_neg hseen]
  have honce : f.seen.testBit x.field = true → x.field = 3 := fun h => by
    by_contra hne
    exact hseen ⟨(and_one_shiftLeft_ne_zero _ _).mpr h, hne⟩
  cases x with
  | scalar field v =>
    refine scalarField_iff.trans ?_
    exact ⟨fun h => ⟨honce, h⟩, fun h => h.2⟩
  | sdReq vs =>
    simp only
    by_cases hempty : vs = []
    · rw [if_pos hempty]
      exact ⟨nofun, fun h => absurd hempty h.2.1.1⟩
    rw [if_neg hempty, Option.map_eq_some_iff]
    constructor
    · rintro ⟨m, hm, rfl⟩
      obtain ⟨hle, rfl⟩ := foldlM_sdReqStep.mp hm
      exact ⟨honce, ⟨hempty, hle⟩, rfl⟩
    · rintro ⟨-, hok, rfl⟩
      exact ⟨_, foldlM_sdReqStep.mpr ⟨hok.2, rfl⟩, rfl⟩
  | hash digest =>
    have hrec : record cfg f (.hash digest) = ⟨{ f.candidate with sha256 := digest.reverse },
        f.seen ||| (1 <<< 8), f.sdMatch⟩ := by
      simp [record, Item.sdReqs, Item.field]
    rw [hrec, Option.some.injEq]
    exact ⟨fun h => ⟨honce, trivial, h.symm⟩, fun h => h.2.2.symm⟩

theorem record_seen (cfg : Platform) (f : Fields) (x : Item) (k : Nat) :
    (record cfg f x).seen.testBit k = (f.seen.testBit k || decide (x.field = k)) := by
  simp only [record]
  rw [Nat.testBit_or, Nat.one_shiftLeft, Nat.testBit_two_pow]

/-- The fold: every item is in order on its own, and none but the list comes twice. -/
theorem foldlM_stepItem {cfg : Platform} {items : List Item} {f f' : Fields} :
    items.foldlM (stepItem cfg) f = some f' ↔ (∀ x ∈ items, itemOk cfg x) ∧
      (∀ k, k ≠ 3 → (items.map Item.field).count k + (f.seen.testBit k).toNat ≤ 1) ∧
      f' = items.foldl (record cfg) f := by
  induction items generalizing f with
  | nil =>
    simp only [List.foldlM_nil, List.foldl_nil, List.map_nil, List.count_nil]
    have hbit : ∀ b : Bool, 0 + b.toNat ≤ 1 := by decide
    constructor
    · intro h
      exact ⟨nofun, fun k _ => hbit _, (Option.some.inj h).symm⟩
    · rintro ⟨-, -, rfl⟩
      rfl
  | cons x items ih =>
    have hbit : ∀ k, k ≠ 3 → (f.seen.testBit x.field = true → x.field = 3) →
        ((x :: items).map Item.field).count k + (f.seen.testBit k).toNat =
          (items.map Item.field).count k + ((record cfg f x).seen.testBit k).toNat := by
      intro k hk honce
      rw [List.map_cons, List.count_cons, record_seen]
      by_cases hx : x.field = k
      · subst hx
        have hno : f.seen.testBit x.field = false := by
          by_contra h
          exact hk (honce (by simpa using h))
        simp [hno]
      · simp [hx, beq_false_of_ne hx]
    rw [List.foldlM_cons, Option.bind_eq_bind, Option.bind_eq_some_iff, List.foldl_cons]
    constructor
    · rintro ⟨f1, hstep, hrest⟩
      obtain ⟨honce, hok, rfl⟩ := stepItem_iff.mp hstep
      obtain ⟨hoks, hcount, hf⟩ := ih.mp hrest
      refine ⟨List.forall_mem_cons.mpr ⟨hok, hoks⟩, fun k hk => ?_, hf⟩
      rw [hbit k hk honce]
      exact hcount k hk
    · rintro ⟨hoks, hcount, hf⟩
      obtain ⟨hok, hoks⟩ := List.forall_mem_cons.mp hoks
      have honce : f.seen.testBit x.field = true → x.field = 3 := by
        intro hseen
        by_contra hne
        have hle := hcount x.field hne
        rw [List.map_cons, List.count_cons_self, hseen, Bool.toNat_true] at hle
        omega
      refine ⟨record cfg f x, stepItem_iff.mpr ⟨honce, hok, rfl⟩, ih.mpr ⟨hoks, fun k hk => ?_, hf⟩⟩
      rw [← hbit k hk honce]
      exact hcount k hk

section Recorded

variable {cfg : Platform} {items : List Item} {f : Fields}

theorem foldl_record_seen (k : Nat) : (items.foldl (record cfg) f).seen.testBit k =
    (f.seen.testBit k || decide (k ∈ items.map Item.field)) := by
  induction items generalizing f with
  | nil => simp
  | cons x items ih =>
    rw [List.foldl_cons, ih, record_seen, Bool.or_assoc]
    simp [eq_comm]

theorem foldl_record_sdMatch : (items.foldl (record cfg) f).sdMatch =
    (f.sdMatch || decide (cfg.fwid ∈ items.flatMap Item.sdReqs)) := by
  induction items generalizing f with
  | nil => simp
  | cons x items ih =>
    rw [List.foldl_cons, ih]
    simp only [record, Bool.or_assoc, List.flatMap_cons, List.mem_append, Bool.decide_or]

/-- What only the items of field `k` change. -/
theorem foldl_record_other {γ : Type} {k : Nat} {q : Fields → γ}
    (hother : ∀ f x, x.field ≠ k → q (record cfg f x) = q f) (hnone : k ∉ items.map Item.field) :
    q (items.foldl (record cfg) f) = q f := by
  induction items generalizing f with
  | nil => rfl
  | cons x items ih =>
    rw [List.map_cons, List.mem_cons, not_or] at hnone
    rw [List.foldl_cons, ih hnone.2, hother f x (Ne.symm hnone.1)]

/-- What one item sets stays, if no other has its field. -/
theorem foldl_record_slot {γ : Type} {x : Item} {q : Fields → γ} {c : γ}
    (hother : ∀ f y, y.field ≠ x.field → q (record cfg f y) = q f)
    (hset : ∀ f, q (record cfg f x) = c) (honce : (items.map Item.field).count x.field ≤ 1)
    (hmem : x ∈ items) : q (items.foldl (record cfg) f) = c := by
  induction items generalizing f with
  | nil => cases hmem
  | cons y items ih =>
    rw [List.map_cons, List.count_cons] at honce
    rw [List.foldl_cons]
    rcases List.mem_cons.mp hmem with rfl | hmem
    · have hnone : x.field ∉ items.map Item.field := by
        rw [beq_self_eq_true, if_pos rfl] at honce
        exact List.count_eq_zero.mp (by omega)
      rw [foldl_record_other hother hnone, hset]
    · exact ih (by omega) hmem

theorem record_size {x : Item} (h : x.field ≠ 7) (f : Fields) :
    (record cfg f x).candidate.size = f.candidate.size := by
  simp only [record]
  split
  · exact absurd rfl h
  · rfl
  · rfl

theorem record_sha256 {x : Item} (h : x.field ≠ 8) (f : Fields) :
    (record cfg f x).candidate.sha256 = f.candidate.sha256 := by
  simp only [record]
  split
  · rfl
  · exact absurd rfl h
  · rfl

theorem seen_mask_iff (n : Nat) : n &&& 0x18C = 0x18C ↔
    n.testBit 2 = true ∧ n.testBit 3 = true ∧ n.testBit 7 = true ∧ n.testBit 8 = true := by
  constructor
  · intro h
    have hbit : ∀ k, Nat.testBit 0x18C k = true → n.testBit k = true := by
      intro k hk
      rw [← h, Nat.testBit_and, Bool.and_eq_true] at hk
      exact hk.1
    exact ⟨hbit 2 (by decide), hbit 3 (by decide), hbit 7 (by decide), hbit 8 (by decide)⟩
  · rintro ⟨h2, h3, h7, h8⟩
    refine Nat.eq_of_testBit_eq fun i => ?_
    have hlow : ∀ i, i < 9 → Nat.testBit 0x18C i = true → i = 2 ∨ i = 3 ∨ i = 7 ∨ i = 8 := by decide
    rw [Nat.testBit_and]
    cases hm : Nat.testBit 0x18C i with
    | false => exact Bool.and_false _
    | true =>
      have hi : i < 9 := by
        by_contra hge
        have hpow : (0x18C : Nat) < 2 ^ i :=
          lt_of_lt_of_le (by omega) (Nat.pow_le_pow_right (by omega) (show 9 ≤ i by omega))
        rw [Nat.testBit_eq_false_of_lt hpow] at hm
        cases hm
      rcases hlow i hi hm with rfl | rfl | rfl | rfl
      exacts [by rw [h2]; rfl, by rw [h3]; rfl, by rw [h7]; rfl, by rw [h8]; rfl]

theorem fieldsAccepted_iff : fieldsAccepted cfg f = true ↔
    (∀ k ∈ [2, 3, 7, 8], f.seen.testBit k = true) ∧ f.sdMatch = true ∧ 8 ≤ f.candidate.size ∧
      f.candidate.size ≤ cfg.maxImage ∧ 4 ∣ f.candidate.size := by
  have h3 : f.candidate.size &&& 3 = f.candidate.size % 4 := Nat.and_two_pow_sub_one_eq_mod _ 2
  unfold fieldsAccepted
  simp only [Bool.and_eq_true, decide_eq_true_eq, seen_mask_iff, h3, Nat.dvd_iff_mod_eq_zero,
    List.forall_mem_cons]
  tauto

end Recorded

/-! ## Acceptance -/

section Accept

variable {cfg : Platform} {items : List Item} {V : Nat → List Byte → Prop}

theorem initCommand_iff {init : List Byte} :
    InitCommand V items init ↔ Concat (Encodes V) items init := by
  constructor
  · rintro ⟨fields, hmsg, htyped⟩
    induction htyped generalizing init with
    | nil =>
      cases hmsg
      exact .nil
    | cons hx _ ih =>
      cases hmsg with
      | cons hrec hrest => exact .cons ⟨_, hrec, hx⟩ (ih hrest)
  · intro h
    induction h with
    | nil => exact ⟨[], .nil, .nil⟩
    | cons hx _ ih =>
      obtain ⟨field, hrec, htyped⟩ := hx
      obtain ⟨fields, hmsg, hall⟩ := ih
      exact ⟨field :: fields, .cons hrec hmsg, .cons htyped hall⟩

/-- The outer messages, byte by byte. -/
theorem packet_iff {data command : List Byte} : Packet V items data command ↔
    (∃ k l, V 10 k ∧ V command.length l ∧ data = k ++ (l ++ command)) ∧
    ∃ k l k' l' init, V 8 k ∧ V 1 l ∧ V 18 k' ∧ V init.length l' ∧
      command = k ++ (l ++ (k' ++ (l' ++ init))) ∧ Concat (Encodes V) items init := by
  unfold Packet Message
  simp only [concat_cons_iff, concat_nil_iff, record_bytes_iff, record_varint_iff, initCommand_iff]
  refine and_congr ?_ ?_
  · constructor
    · rintro ⟨_, _, ⟨k, l, hk, hl, rfl⟩, rfl, rfl⟩
      exact ⟨k, l, hk, hl, List.append_nil _⟩
    · rintro ⟨k, l, hk, hl, rfl⟩
      exact ⟨_, _, ⟨k, l, hk, hl, rfl⟩, rfl, (List.append_nil _).symm⟩
  · constructor
    · rintro ⟨init, ⟨_, _, ⟨k, l, hk, hl, rfl⟩, ⟨_, _, ⟨k', l', hk', hl', rfl⟩, rfl, rfl⟩, rfl⟩, hinit⟩
      refine ⟨k, l, k', l', init, hk, hl, hk', hl', ?_, hinit⟩
      simp only [List.append_assoc, List.append_nil]
    · rintro ⟨k, l, k', l', init, hk, hl, hk', hl', rfl, hinit⟩
      refine ⟨init, ⟨_, _, ⟨k, l, hk, hl, rfl⟩, ⟨_, _, ⟨k', l', hk', hl', rfl⟩, rfl, rfl⟩, ?_⟩, hinit⟩
      simp only [List.append_assoc, List.append_nil]

/-- A one-byte number at the head is all of the varint there. -/
theorem Varint32.eq_head {v : Nat} {c : Byte} {k r t : List Byte} (hk : Varint32 v k)
    (hc : c.toNat < 128) (heq : k ++ r = c :: t) : v = c.toNat ∧ k = [c] ∧ r = t := by
  obtain ⟨rfl, rfl, rfl⟩ := hk.varint.cancel (.last hc) (show k ++ r = [c] ++ t from heq)
  exact ⟨rfl, rfl, rfl⟩

theorem byte_iff {b p : List Byte} {c : Byte} : byte b c = some p ↔ b = c :: p := by
  cases b with
  | nil => exact ⟨nofun, nofun⟩
  | cons d b =>
    simp only [byte]
    constructor
    · intro h
      split_ifs at h with hd
      rw [hd, Option.some.inj h]
    · intro h
      obtain ⟨rfl, rfl⟩ := List.cons.inj h
      exact if_pos rfl

/-- The parser reads two frames and the items between them. -/
theorem parse_frames {data : List Byte} {image : Image} :
    secureDfuParseCommand cfg data = some image ↔ data.length ≤ commandMax ∧
    ∃ command init l l' f, Varint32 command.length l ∧ Varint32 init.length l' ∧
      data = 10 :: (l ++ command) ∧ command = 8 :: 1 :: 18 :: (l' ++ init) ∧
      whileInput (initField cfg) {} init = some f ∧ fieldsAccepted cfg f = true ∧
      image = f.candidate := by
  unfold secureDfuParseCommand
  constructor
  · intro h
    split_ifs at h with hlen
    obtain ⟨packet, hp, h1⟩ := Option.bind_eq_some_iff.mp h
    obtain ⟨⟨command, rest⟩, hc, h2⟩ := Option.bind_eq_some_iff.mp h1
    simp only at h2
    split_ifs at h2 with hrest
    obtain ⟨c1, hc1, h3⟩ := Option.bind_eq_some_iff.mp h2
    obtain ⟨c2, hc2, h4⟩ := Option.bind_eq_some_iff.mp h3
    obtain ⟨c3, hc3, h5⟩ := Option.bind_eq_some_iff.mp h4
    obtain ⟨⟨init, rest'⟩, hi, h6⟩ := Option.bind_eq_some_iff.mp h5
    simp only at h6
    split_ifs at h6 with hrest'
    obtain ⟨f, hf, h7⟩ := Option.bind_eq_some_iff.mp h6
    split_ifs at h7 with hacc
    obtain ⟨l, hl, rfl⟩ := bytes_iff.mp hc
    obtain ⟨l', hl', rfl⟩ := bytes_iff.mp hi
    rw [byte_iff] at hp hc1 hc2 hc3
    rw [not_not] at hrest hrest'
    rw [hrest, List.append_nil] at hp
    rw [hrest', List.append_nil] at hc3
    refine ⟨by omega, command, init, l, l', f, hl, hl', hp, ?_, hf, hacc, (Option.some.inj h7).symm⟩
    rw [hc1, hc2, hc3]
  · rintro ⟨hlen, command, init, l, l', f, hl, hl', hdata, hcommand, hf, hacc, rfl⟩
    rw [if_neg (by rw [hdata] at hlen ⊢; simp only [List.cons_ne_nil, false_or]; omega)]
    refine Option.bind_eq_some_iff.mpr ⟨_, byte_iff.mpr hdata, ?_⟩
    refine Option.bind_eq_some_iff.mpr ⟨(command, []), bytes_iff.mpr ⟨l, hl, by simp⟩, ?_⟩
    simp only
    rw [if_neg (fun h => h rfl)]
    refine Option.bind_eq_some_iff.mpr ⟨_, byte_iff.mpr hcommand, ?_⟩
    refine Option.bind_eq_some_iff.mpr ⟨_, byte_iff.mpr rfl, ?_⟩
    refine Option.bind_eq_some_iff.mpr ⟨_, byte_iff.mpr rfl, ?_⟩
    refine Option.bind_eq_some_iff.mpr ⟨(init, []), bytes_iff.mpr ⟨l', hl', by simp⟩, ?_⟩
    simp only
    rw [if_neg (fun h => h rfl)]
    refine Option.bind_eq_some_iff.mpr ⟨f, hf, ?_⟩
    rw [if_pos hacc]

/-- The frames, with their tags in one byte each. -/
theorem packet_tags_iff {data command : List Byte} :
    (Packet Varint32 items data command ∧ [10] <+: data ∧ [8, 1, 18] <+: command) ↔
    ∃ init l l', Varint32 command.length l ∧ Varint32 init.length l' ∧
      data = 10 :: (l ++ command) ∧ command = 8 :: 1 :: 18 :: (l' ++ init) ∧
      Concat (Encodes Varint32) items init := by
  rw [packet_iff]
  constructor
  · rintro ⟨⟨⟨k, l, hk, hl, hdata⟩, k1, l1, k2, l2, init, hk1, hl1, hk2, hl2, hcommand, hinit⟩,
      ⟨t, ht⟩, ⟨u, hu⟩⟩
    obtain ⟨-, rfl, rfl⟩ := Varint32.eq_head hk (by decide) (hdata.symm.trans ht.symm)
    obtain ⟨-, rfl, hr1⟩ := Varint32.eq_head hk1 (by decide) (hcommand.symm.trans hu.symm)
    obtain ⟨-, rfl, hr2⟩ := Varint32.eq_head hl1 (by decide) hr1
    obtain ⟨-, rfl, hr3⟩ := Varint32.eq_head hk2 (by decide) hr2
    exact ⟨init, l, l2, hl, hl2, hdata, hcommand, hinit⟩
  · rintro ⟨init, l, l', hl, hl', rfl, hcommand, hinit⟩
    have hone : ∀ c : Byte, c.toNat < 128 → Varint32 c.toNat [c] :=
      fun c hc => ⟨.last hc, by simp, by omega⟩
    refine ⟨⟨⟨[10], l, hone 10 (by decide), hl, rfl⟩, [8], [1], [18], l', init, hone 8 (by decide),
      hone 1 (by decide), hone 18 (by decide), hl', hcommand, hinit⟩, ⟨_, rfl⟩, ⟨l' ++ init, hcommand.symm⟩⟩

theorem eq_of_count_le_one {k : Nat} {x y : Item} (h : (items.map Item.field).count k ≤ 1)
    (hx : x ∈ items) (hy : y ∈ items) (hxk : x.field = k) (hyk : y.field = k) : x = y := by
  induction items with
  | nil => cases hx
  | cons z items ih =>
    rw [List.map_cons, List.count_cons] at h
    have hin : ∀ w ∈ items, w.field = k → z.field ≠ k := by
      intro w hw hwk hz
      have hpos := List.count_pos_iff.mpr (List.mem_map.mpr ⟨w, hw, hwk⟩)
      rw [hz, beq_self_eq_true, if_pos rfl] at h
      omega
    rcases List.mem_cons.mp hx with rfl | hx1
    · rcases List.mem_cons.mp hy with rfl | hy1
      · rfl
      · exact absurd hxk (hin y hy1 hyk)
    · rcases List.mem_cons.mp hy with rfl | hy1
      · exact absurd hyk (hin x hx1 hxk)
      · exact ih (by omega) hx1 hy1

theorem Item.eq_scalar {x : Item} {k : Nat} (h : x.field = k) (h3 : k ≠ 3) (h8 : k ≠ 8) :
    ∃ v, x = .scalar k v := by
  cases x with
  | scalar field v => exact ⟨v, congrArg (Item.scalar · v) h⟩
  | sdReq vs => exact absurd h.symm h3
  | hash digest => exact absurd h.symm h8

theorem Item.field_of_sdReqs {x : Item} {v : Nat} (h : v ∈ x.sdReqs) : x.field = 3 := by
  unfold Item.sdReqs at h
  split at h
  · rfl
  · rfl
  · cases h

theorem itemOk.sdReqs_le {x : Item} {v : Nat} (h : itemOk cfg x) (hv : v ∈ x.sdReqs) :
    v ≤ 0xFFFF := by
  unfold Item.sdReqs at hv
  split at hv
  · rw [List.mem_singleton] at hv
    rw [hv]
    exact h.2.2.1 rfl
  · exact h.2 v hv
  · cases hv

theorem foldl_record_size {n : Nat} (honce : (items.map Item.field).count 7 ≤ 1)
    (hmem : .scalar 7 n ∈ items) : (items.foldl (record cfg) {}).candidate.size = n := by
  refine foldl_record_slot (q := fun f => f.candidate.size) (fun f _ h => ?_) (fun _ => ?_) ?_ hmem
  · exact record_size h f
  · rfl
  · exact honce

theorem foldl_record_sha256 {d : List Byte} (honce : (items.map Item.field).count 8 ≤ 1)
    (hmem : .hash d ∈ items) : (items.foldl (record cfg) {}).candidate.sha256 = d.reverse := by
  refine foldl_record_slot (q := fun f => f.candidate.sha256) (fun f _ h => ?_) (fun _ => ?_) ?_ hmem
  · exact record_sha256 h f
  · rfl
  · exact honce

/-- The fold accepts the items of a valid command. -/
theorem fold_accepts_iff {image : Image} (htyped : ∀ field v, .scalar field v ∈ items →
    field ∈ scalarFields) :
    (∃ f, items.foldlM (stepItem cfg) {} = some f ∧ fieldsAccepted cfg f = true ∧
      image = f.candidate) ↔
    .sdReq [] ∉ items ∧
      ∃ digest, Valid cfg items image.size digest ∧ image.sha256 = digest.reverse := by
  have hzero : ∀ k, (({} : Fields).seen.testBit k) = false := Nat.zero_testBit
  constructor
  · rintro ⟨f, hfold, hacc, rfl⟩
    obtain ⟨hok, hcount, rfl⟩ := foldlM_stepItem.mp hfold
    obtain ⟨hseen, hsd, hge, hle, hdvd⟩ := fieldsAccepted_iff.mp hacc
    simp only [hzero, Bool.toNat_false, Nat.add_zero] at hcount
    simp only [foldl_record_seen, hzero, Bool.false_or, decide_eq_true_eq] at hseen
    rw [foldl_record_sdMatch, Bool.false_or, decide_eq_true_eq] at hsd
    obtain ⟨x2, hx2, hf2⟩ := List.mem_map.mp (hseen 2 (by decide))
    obtain ⟨hw, rfl⟩ := Item.eq_scalar hf2 (by omega) (by omega)
    obtain ⟨x7, hx7, hf7⟩ := List.mem_map.mp (hseen 7 (by decide))
    obtain ⟨size, rfl⟩ := Item.eq_scalar hf7 (by omega) (by omega)
    obtain ⟨x8, hx8, hf8⟩ := List.mem_map.mp (hseen 8 (by decide))
    obtain ⟨digest, rfl⟩ : ∃ d, x8 = .hash d := by
      cases x8 with
      | scalar field v =>
        obtain rfl : field = 8 := hf8
        exact absurd (htyped _ _ hx8) (by decide)
      | sdReq vs => exact absurd hf8 (show 3 ≠ 8 by omega)
      | hash d => exact ⟨d, rfl⟩
    have hsize : (items.foldl (record cfg) {}).candidate.size = size :=
      foldl_record_size (hcount 7 (by omega)) hx7
    obtain rfl : hw = cfg.hwVersion := (hok _ hx2).2.1 rfl
    rw [hsize] at hge hle hdvd ⊢
    refine ⟨fun h => (hok _ h).1 rfl, digest, ⟨hcount, hx2, fun v hv => ?_, hsd, fun k hk v hv => ?_,
      hx7, hx8, hge, hle, hdvd⟩, foldl_record_sha256 (hcount 8 (by omega)) hx8⟩
    · obtain ⟨x, hx, hv⟩ := List.mem_flatMap.mp hv
      exact (hok x hx).sdReqs_le hv
    · exact (hok _ hv).2.2.2 hk
  · rintro ⟨hempty, digest, hvalid, hsha⟩
    have hsize : (items.foldl (record cfg) {}).candidate.size = image.size :=
      foldl_record_size (hvalid.once 7 (by omega)) hvalid.size_mem
    have hsha' : (items.foldl (record cfg) {}).candidate.sha256 = digest.reverse :=
      foldl_record_sha256 (hvalid.once 8 (by omega)) hvalid.hash_mem
    have hok : ∀ x ∈ items, itemOk cfg x := by
      intro x hx
      have hle : ∀ v ∈ x.sdReqs, v ≤ 0xFFFF := fun v hv =>
        hvalid.sdReqs_le v (List.mem_flatMap.mpr ⟨x, hx, hv⟩)
      cases x with
      | scalar field v =>
        refine ⟨htyped _ _ hx, ?_, ?_, fun hk => hvalid.zero field hk v hx⟩
        · rintro rfl
          have heq := eq_of_count_le_one (hvalid.once 2 (by omega)) hx hvalid.hwVersion rfl rfl
          injection heq
        · rintro rfl
          exact hle v (List.mem_singleton.mpr rfl)
      | sdReq vs => exact ⟨fun h => hempty (h ▸ hx), hle⟩
      | hash d => trivial
    refine ⟨_, foldlM_stepItem.mpr ⟨hok, fun k hk => ?_, rfl⟩, fieldsAccepted_iff.mpr ⟨?_, ?_, ?_⟩, ?_⟩
    · rw [hzero]
      exact hvalid.once k hk
    · intro k hk
      rw [foldl_record_seen, hzero, Bool.false_or, decide_eq_true_eq]
      simp only [List.mem_cons, List.not_mem_nil, or_false] at hk
      rcases hk with rfl | rfl | rfl | rfl
      · exact List.mem_map.mpr ⟨_, hvalid.hwVersion, rfl⟩
      · obtain ⟨x, hx, hv⟩ := List.mem_flatMap.mp hvalid.fwid
        exact List.mem_map.mpr ⟨x, hx, Item.field_of_sdReqs hv⟩
      · exact List.mem_map.mpr ⟨_, hvalid.size_mem, rfl⟩
      · exact List.mem_map.mpr ⟨_, hvalid.hash_mem, rfl⟩
    · rw [foldl_record_sdMatch, Bool.false_or, decide_eq_true_eq]
      exact hvalid.fwid
    · rw [hsize]
      exact ⟨hvalid.size_ge, hvalid.size_le, hvalid.size_dvd⟩
    · calc image = ⟨image.size, image.sha256⟩ := rfl
        _ = _ := by rw [hsha, ← hsize, ← hsha']

theorem Encodes.scalar_field {field v : Nat} {l : List Byte} (h : Encodes V (.scalar field v) l) :
    field ∈ scalarFields := by
  obtain ⟨_, _, htyped⟩ := h
  cases htyped with
  | scalar h => exact h

/-- What the parser accepts, and what it makes of it. -/
theorem secureDfuParseCommand_iff {data : List Byte} {image : Image} :
    secureDfuParseCommand cfg data = some image ↔ data.length ≤ commandMax ∧
    ∃ items command digest, Packet Varint32 items data command ∧ [10] <+: data ∧
      [8, 1, 18] <+: command ∧ .sdReq [] ∉ items ∧ Valid cfg items image.size digest ∧
      image.sha256 = digest.reverse := by
  rw [parse_frames]
  refine and_congr_right fun _ => ?_
  constructor
  · rintro ⟨command, init, l, l', f, hl, hl', hdata, hcommand, hf, hacc, himage⟩
    obtain ⟨items, hitems, hfold⟩ := initLoop_iff.mp hf
    have htyped : ∀ field v, .scalar field v ∈ items → field ∈ scalarFields := fun field v h =>
      (hitems.encoded _ h).choose_spec.scalar_field
    obtain ⟨hempty, digest, hvalid, hsha⟩ :=
      (fold_accepts_iff htyped).mp ⟨f, hfold, hacc, himage⟩
    obtain ⟨hpacket, htag, htags⟩ :=
      packet_tags_iff.mpr ⟨init, l, l', hl, hl', hdata, hcommand, hitems⟩
    exact ⟨items, command, digest, hpacket, htag, htags, hempty, hvalid, hsha⟩
  · rintro ⟨items, command, digest, hpacket, htag, htags, hempty, hvalid, hsha⟩
    obtain ⟨init, l, l', hl, hl', hdata, hcommand, hitems⟩ :=
      packet_tags_iff.mp ⟨hpacket, htag, htags⟩
    have htyped : ∀ field v, .scalar field v ∈ items → field ∈ scalarFields := fun field v h =>
      (hitems.encoded _ h).choose_spec.scalar_field
    obtain ⟨f, hfold, hacc, himage⟩ := (fold_accepts_iff htyped).mpr ⟨hempty, digest, hvalid, hsha⟩
    exact ⟨command, init, l, l', f, hl, hl', hdata, hcommand, initLoop_iff.mpr ⟨items, hitems, hfold⟩,
      hacc, himage⟩

/-! ## One reading -/

theorem Typed.unique {field : Nat × Value} {x y : Item} (hx : Typed Varint32 field x)
    (hy : Typed Varint32 field y) : x = y := by
  cases hx with
  | scalar _ =>
    cases hy
    rfl
  | sdReq h =>
    cases hy with
    | sdReq h' => rw [h.unique h']
  | @hash digest _ =>
    generalize hb : [0x08, 0x03, 0x12, 0x20] ++ digest = b at hy
    cases hy with
    | hash _ => rw [List.append_cancel_left hb]

theorem InitCommand.unique {items items' : List Item} {init : List Byte}
    (h : InitCommand Varint32 items init) (h' : InitCommand Varint32 items' init) :
    items = items' := by
  obtain ⟨fields, hmsg, htyped⟩ := h
  obtain ⟨fields', hmsg', htyped'⟩ := h'
  obtain rfl := hmsg.unique hmsg'
  clear hmsg hmsg'
  induction htyped generalizing items' with
  | nil =>
    cases htyped'
    rfl
  | cons hx _ ih =>
    cases htyped' with
    | cons hx' hrest => rw [hx.unique hx', ih hrest]

theorem Packet.unique {items items' : List Item} {data command command' : List Byte}
    (h : Packet Varint32 items data command) (h' : Packet Varint32 items' data command') :
    items = items' ∧ command = command' := by
  obtain ⟨hdata, init, hcommand, hinit⟩ := h
  obtain ⟨hdata', init', hcommand', hinit'⟩ := h'
  have hc := hdata.unique hdata'
  simp only [List.cons.injEq, Prod.mk.injEq, Value.bytes.injEq, true_and, and_true] at hc
  subst hc
  have hi := hcommand.unique hcommand'
  simp only [List.cons.injEq, Prod.mk.injEq, Value.bytes.injEq, true_and, and_true] at hi
  subst hi
  exact ⟨hinit.unique hinit', rfl⟩

theorem Valid.unique {size size' : Nat} {digest digest' : List Byte}
    (h : Valid cfg items size digest) (h' : Valid cfg items size' digest') :
    size = size' ∧ digest = digest' := by
  have hs := eq_of_count_le_one (h.once 7 (by omega)) h.size_mem h'.size_mem rfl rfl
  have hd := eq_of_count_le_one (h.once 8 (by omega)) h.hash_mem h'.hash_mem rfl rfl
  injection hs with _ hs
  injection hd with hd
  exact ⟨hs, hd⟩

end Accept

end OtaFix.SecureDfu

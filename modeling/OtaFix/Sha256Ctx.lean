import Mathlib.Data.List.GetD
import OtaFix.Lib.Fips180
import OtaFix.Sha256Std

/-!
# SHA-256 in its context

`sha256.c` with its 64-byte buffer: `sha256_update` appends to it, `sha256_final`
writes the padding into it. The buffer's first bytes are the open block of the
byte-wise hash (`Holds`), whose digest is that of the standard. So for every message
of a length the standard covers, cut into any pieces, the result is its SHA-256.
-/

namespace OtaFix

namespace Sha256

open Lib

/-! ## The compression function of the standard -/

def Hash.vars (s : Hash) : Fips180.Vars := ⟨s.a, s.b, s.c, s.d, s.e, s.f, s.g, s.h⟩

theorem rotateRight_eq {n : Nat} (hn : n < 32) (x : Word32) :
    x.rotateRight n = Fips180.rotr n x := by
  rw [BitVec.rotateRight_eq_rotateRightAux_of_lt hn]
  rfl

theorem round_vars (s : Hash) (kt wt : Word32) :
    (round s (kt, wt)).vars = Fips180.step s.vars kt wt := by
  have hep0 : ep0 s.a = Fips180.bigSigma0 s.a := by
    unfold ep0 Fips180.bigSigma0
    rw [rotateRight_eq (by omega), rotateRight_eq (by omega), rotateRight_eq (by omega)]
  have hep1 : ep1 s.e = Fips180.bigSigma1 s.e := by
    unfold ep1 Fips180.bigSigma1
    rw [rotateRight_eq (by omega), rotateRight_eq (by omega), rotateRight_eq (by omega)]
  unfold round Fips180.step
  rw [hep0, hep1]
  rfl

theorem sig0_eq (x : Word32) : sig0 x = Fips180.sigma0 x := by
  unfold sig0 Fips180.sigma0
  rw [rotateRight_eq (by omega), rotateRight_eq (by omega)]
  rfl

theorem sig1_eq (x : Word32) : sig1 x = Fips180.sigma1 x := by
  unfold sig1 Fips180.sigma1
  rw [rotateRight_eq (by omega), rotateRight_eq (by omega)]
  rfl

theorem k_eq : k = (List.range 64).map Fips180.k := by
  have hk : Fips180.k = fun t => Fips180.rootBits 3 (Fips180.firstPrimes.getD t 0) := by
    funext t
    unfold Fips180.k
    rw [Fips180.primesBelow_312]
  rw [hk]
  decide +kernel

theorem init_vars : init.state.vars = Fips180.initial := by
  unfold Hash.vars init Fips180.initial
  rw [Fips180.Vars.mk.injEq]
  decide +kernel

/-- The words of a block. -/
theorem words_getD {b : List Byte} {t : Nat} (h : 4 * t + 4 ≤ b.length) :
    (words b).getD t 0 = Fips180.blockWord b t := by
  induction t generalizing b with
  | zero =>
    match b, h with
    | b0 :: b1 :: b2 :: b3 :: b, _ => rfl
  | succ t ih =>
    match b, h with
    | b0 :: b1 :: b2 :: b3 :: b, h =>
      simp only [List.length_cons] at h
      have hrest := ih (b := b) (by omega)
      unfold words
      rw [List.getD_cons_succ, hrest]
      unfold Fips180.blockWord
      simp only [Nat.mul_succ, Nat.add_assoc, List.getD_eq_getElem?_getD]
      rfl

theorem words_length {b : List Byte} {n : Nat} (h : b.length = 4 * n) : (words b).length = n := by
  induction n generalizing b with
  | zero =>
    rw [List.length_eq_zero_iff.mp h]
    rfl
  | succ n ih =>
    match b, h with
    | b0 :: b1 :: b2 :: b3 :: b, h =>
      simp only [List.length_cons] at h
      unfold words
      rw [List.length_cons, ih (by omega)]

/-- The list grows by the words of the schedule. -/
theorem extend_getD {m : Nat → Word32} {n : Nat} {l : List Word32} (hl : 16 ≤ l.length)
    (hm : ∀ t, t < l.length → l.getD t 0 = Fips180.schedule m t) :
    (extend n l).length = l.length + n ∧
      ∀ t, t < l.length + n → (extend n l).getD t 0 = Fips180.schedule m t := by
  induction n generalizing l with
  | zero => exact ⟨rfl, hm⟩
  | succ n ih =>
    unfold extend
    simp only
    have hnext : sig1 (l.getD (l.length - 2) 0) + l.getD (l.length - 7) 0 +
        sig0 (l.getD (l.length - 15) 0) + l.getD (l.length - 16) 0 =
          Fips180.schedule m l.length := by
      rw [hm _ (by omega), hm _ (by omega), hm _ (by omega), hm _ (by omega), sig0_eq, sig1_eq]
      conv => rhs; unfold Fips180.schedule
      rw [if_neg (by omega)]
    rw [hnext]
    have hlen : (l ++ [Fips180.schedule m l.length]).length = l.length + 1 := by simp
    obtain ⟨hlength, hwords⟩ := ih (l := l ++ [Fips180.schedule m l.length]) (by omega) (by
      intro t ht
      by_cases hlt : t < l.length
      · rw [List.getD_append _ _ _ _ hlt]
        exact hm t hlt
      · rw [show t = l.length by omega, List.getD_append_right _ _ _ _ (Nat.le_refl _),
          Nat.sub_self]
        rfl)
    rw [hlen] at hlength hwords
    exact ⟨by omega, fun t ht => hwords t (by omega)⟩

theorem foldl_round_vars {kw : List (Word32 × Word32)} {s : Hash} :
    (kw.foldl round s).vars = kw.foldl (fun v p => Fips180.step v p.1 p.2) s.vars := by
  induction kw generalizing s with
  | nil => rfl
  | cons p kw ih =>
    rw [List.foldl_cons, List.foldl_cons, ih, round_vars]

theorem transform_vars {s : Hash} {b : List Byte} (hb : b.length = 64) :
    (transform s b).vars = Fips180.compress s.vars b := by
  have hwords := words_length (n := 16) (b := b) (by omega)
  obtain ⟨hlen, hget⟩ := extend_getD (m := Fips180.blockWord b) (n := 48) (l := words b) (by omega)
    (by
      intro t ht
      rw [words_getD (by omega)]
      unfold Fips180.schedule
      rw [if_pos (by omega)])
  rw [hwords] at hlen hget
  have hzip : k.zip (extend 48 (words b)) =
      (List.range 64).map fun t => (Fips180.k t, Fips180.schedule (Fips180.blockWord b) t) := by
    refine List.ext_getElem (by simp [hlen, k_eq]) fun t h1 h2 => ?_
    rw [List.length_map, List.length_range] at h2
    have hw := hget t (by omega)
    rw [List.getD_eq_getElem _ _ (by omega)] at hw
    simp only [List.getElem_zip, List.getElem_map, List.getElem_range, hw, k_eq]
  have hrounds : ((k.zip (extend 48 (words b))).foldl round s).vars = (List.range 64).foldl
      (fun v t => Fips180.step v (Fips180.k t) (Fips180.schedule (Fips180.blockWord b) t))
        s.vars := by
    rw [foldl_round_vars, hzip, List.foldl_map]
  unfold transform Fips180.compress
  rw [← hrounds]
  generalize (k.zip (extend 48 (words b))).foldl round s = r
  rfl

/-! ## The hash of the standard -/

theorem padded_eq {msg : List Byte} (h : msg.length < 2 ^ 61) : padded msg = Fips180.pad msg := by
  have hbits : msg.length * 8 % 2 ^ 64 = 8 * msg.length := by omega
  unfold padded Fips180.pad
  rw [hbits]
  rfl

theorem compress_vars {s : Hash} {msg : List Byte} : (compress s msg).vars =
    (List.range (msg.length / 64)).foldl (fun v i => Fips180.compress v (Fips180.block msg i))
      s.vars := by
  have hblocks : ∀ n, n ≤ msg.length / 64 →
      ((List.range n).foldl (fun s i => transform s (block msg i)) s).vars =
        (List.range n).foldl (fun v i => Fips180.compress v (Fips180.block msg i)) s.vars := by
    intro n hn
    induction n with
    | zero => rfl
    | succ n ih =>
      have hblock : (block msg n).length = 64 := by
        unfold block
        rw [List.length_take, List.length_drop]
        omega
      rw [List.range_succ, List.foldl_append, List.foldl_append, ← ih (by omega)]
      exact transform_vars hblock
  exact hblocks _ (Nat.le_refl _)

theorem standard_eq_fips {msg : List Byte} (h : msg.length < 2 ^ 61) :
    standard msg = Fips180.sha256 msg := by
  unfold standard Fips180.sha256
  rw [← padded_eq h, ← init_vars]
  simp only
  rw [← compress_vars]
  rfl

/-! ## The context -/

/-- `sha256_ctx_t`. -/
structure Context where
  data : List Byte
  data_length : data.length = 64
  datalen : Nat
  bitlen : Nat
  state : Hash

/-- Store a byte in the buffer. -/
def Context.put (c : Context) (i : Nat) (b : Byte) : Context :=
  { c with data := c.data.set i b, data_length := by rw [List.length_set, c.data_length] }

/-- `memset` in the buffer, up to `stop`. -/
def Context.clear (c : Context) (i stop : Nat) : Context :=
  (List.range (stop - i)).foldl (fun c j => c.put (i + j) 0) c

def sha256Transform (c : Context) : Context := { c with state := transform c.state c.data }

/-- `sha256_init`; the buffer keeps what it holds. -/
def sha256Init (c : Context) : Context := { c with datalen := 0, bitlen := 0, state := init.state }

/-- One turn of the loop of `sha256_update`. -/
def sha256Feed (c : Context) (b : Byte) : Context :=
  let c := { c.put c.datalen b with datalen := c.datalen + 1 }
  if c.datalen = 64 then
    { sha256Transform c with bitlen := (c.bitlen + 512) % 2 ^ 64, datalen := 0 }
  else c

def sha256Update (c : Context) (data : List Byte) : Context := data.foldl sha256Feed c

/-- `sha256_final`. -/
def sha256Final (c : Context) : List Byte :=
  let i := c.datalen + 1
  let d := c.put c.datalen 0x80
  let r := if 56 < i then (sha256Transform (d.clear i 64), 0) else (d, i)
  let d := r.1.clear r.2 56
  let bitlen := (c.bitlen + c.datalen * 8) % 2 ^ 64
  let d := (List.range 8).foldl
    (fun d k => d.put (63 - k) (BitVec.ofNat 8 (bitlen / 2 ^ (8 * k)))) d
  digest (sha256Transform d).state

/-- The buffer holds the open block of a byte-wise hash. -/
structure Holds (c : Context) (a : Ctx) : Prop where
  datalen : c.datalen = a.data.length
  short : a.data.length < 64
  data : c.data.take c.datalen = a.data
  bitlen : c.bitlen = a.bitlen
  state : c.state = a.state

theorem holds_init (c : Context) : Holds (sha256Init c) init :=
  ⟨rfl, by decide, rfl, rfl, rfl⟩

theorem take_set_succ {l : List Byte} {i : Nat} (hi : i < l.length) (b : Byte) :
    (l.set i b).take (i + 1) = l.take i ++ [b] := by
  rw [List.take_add_one, List.take_set_of_le (Nat.le_refl i), List.getElem?_set_self hi]
  rfl

theorem holds_feed {c : Context} {a : Ctx} (h : Holds c a) (b : Byte) :
    Holds (sha256Feed c b) (feed a b) := by
  obtain ⟨hlen, hshort, hdata, hbits, hstate⟩ := h
  have hpiece : (c.data.set c.datalen b).take (c.datalen + 1) = a.data ++ [b] := by
    rw [take_set_succ (by rw [c.data_length]; omega), hdata]
  have hsucc : (a.data ++ [b]).length = c.datalen + 1 := by
    rw [List.length_append, hlen]
    rfl
  unfold sha256Feed feed
  simp only [hsucc]
  by_cases hfull : c.datalen + 1 = 64
  · rw [if_pos hfull, if_pos hfull]
    refine ⟨rfl, Nat.zero_lt_succ 63, rfl, ?_, ?_⟩
    · change (c.bitlen + 512) % 2 ^ 64 = _
      rw [hbits]
    · have hall : c.data.set c.datalen b = a.data ++ [b] := by
        rw [← hpiece, List.take_of_length_le]
        rw [List.length_set, c.data_length]
        omega
      simp only [sha256Transform, Context.put, hall, hstate]
  · rw [if_neg hfull, if_neg hfull]
    exact ⟨hsucc.symm, by simp only [hsucc]; omega, hpiece, hbits, hstate⟩

theorem holds_update {c : Context} {a : Ctx} (h : Holds c a) (data : List Byte) :
    Holds (sha256Update c data) (update a data) := by
  induction data generalizing c a with
  | nil => exact h
  | cons b data ih => exact ih (holds_feed h b)

/-! ## The padding -/

theorem foldl_put_fields {f : Nat → Nat} {g : Nat → Byte} {ks : List Nat} {c : Context} :
    (ks.foldl (fun c k => c.put (f k) (g k)) c).state = c.state := by
  induction ks generalizing c with
  | nil => rfl
  | cons k ks ih => exact ih

/-- `memset` continues the bytes before it with zeros. -/
theorem take_clear {c : Context} {i stop : Nat} (hi : i ≤ stop) (hstop : stop ≤ 64) :
    (c.clear i stop).data.take stop = c.data.take i ++ List.replicate (stop - i) 0 := by
  have hrun : ∀ n, i + n ≤ 64 → ((List.range n).foldl (fun c j => c.put (i + j) 0) c).data.take
      (i + n) = c.data.take i ++ List.replicate n 0 := by
    intro n hn
    induction n with
    | zero => rw [List.range_zero, List.foldl_nil, List.replicate_zero, List.append_nil, Nat.add_zero]
    | succ n ih =>
      rw [List.range_succ, List.foldl_append, List.replicate_succ', ← List.append_assoc,
        ← ih (by omega)]
      apply take_set_succ
      rw [Context.data_length]
      exact hn
  have h := hrun (stop - i) (by omega)
  rwa [Nat.add_sub_cancel' hi] at h

theorem transform_state (c : Context) :
    (sha256Transform c).state = transform c.state c.data := rfl

theorem clear_state (c : Context) (i stop : Nat) : (c.clear i stop).state = c.state :=
  foldl_put_fields

/-- The length bytes end the block. -/
theorem put_length_data {d : Context} (n : Nat) : ((List.range 8).foldl
    (fun d k => d.put (63 - k) (BitVec.ofNat 8 (n / 2 ^ (8 * k)))) d).data =
      d.data.take 56 ++ putBitlen n := by
  have hlen : (d.data.take 56).length = 56 := by
    rw [List.length_take, d.data_length]
    rfl
  have hrest : (d.data.drop 56).length = 8 := by rw [List.length_drop, d.data_length]
  have hset : ∀ (q : List Byte) (i : Nat) (b : Byte),
      (d.data.take 56 ++ q).set (56 + i) b = d.data.take 56 ++ q.set i b := by
    intro q i b
    rw [List.set_append_right _ _ (by omega), hlen, Nat.add_sub_cancel_left]
  change ((((((((d.data.set (56 + 7) _).set (56 + 6) _).set (56 + 5) _).set (56 + 4) _).set
    (56 + 3) _).set (56 + 2) _).set (56 + 1) _).set (56 + 0) _) = _
  rw [← List.take_append_drop 56 d.data, List.take_append_of_le_length (by omega), List.take_take]
  generalize d.data.drop 56 = q at hrest
  match q, hrest with
  | [q0, q1, q2, q3, q4, q5, q6, q7], _ =>
    rw [Nat.min_self, hset, hset, hset, hset, hset, hset, hset, hset]
    rfl

theorem final_of_holds {c : Context} {a : Ctx} (h : Holds c a) : sha256Final c = final a := by
  obtain ⟨hlen, hshort, hdata, hbits, hstate⟩ := h
  have hpad : (c.put c.datalen 0x80).data.take (c.datalen + 1) = a.data ++ [0x80] := by
    rw [← hdata]
    apply take_set_succ
    rw [c.data_length]
    omega
  have hsucc : (a.data ++ [(0x80 : Byte)]).length = c.datalen + 1 := by
    rw [List.length_append, hlen]
    rfl
  have hstate' : (c.put c.datalen 0x80).state = a.state := hstate
  unfold sha256Final final
  simp only [hsucc, ← hlen, ← hbits]
  generalize c.put c.datalen 0x80 = d at hpad hstate'
  by_cases hlong : 56 < c.datalen + 1
  · have hblock : (d.clear (c.datalen + 1) 64).data =
        a.data ++ [0x80] ++ List.replicate (64 - (c.datalen + 1)) 0 := by
      rw [← hpad, ← take_clear (by omega) (Nat.le_refl 64), List.take_of_length_le]
      rw [Context.data_length]
    have hfirst : (sha256Transform (d.clear (c.datalen + 1) 64)).state =
        transform a.state (a.data ++ [0x80] ++ List.replicate (64 - (c.datalen + 1)) 0) := by
      rw [transform_state, hblock, clear_state, hstate']
    rw [if_pos hlong, if_pos hlong]
    generalize sha256Transform (d.clear (c.datalen + 1) 64) = e at hfirst
    rw [transform_state, put_length_data, foldl_put_fields, clear_state, hfirst,
      take_clear (Nat.zero_le 56) (by omega)]
    rfl
  · have hzeros := take_clear (c := d) (by omega : c.datalen + 1 ≤ 56) (by omega)
    rw [if_neg hlong, if_neg hlong]
    rw [transform_state, put_length_data, foldl_put_fields, clear_state, hzeros, hpad, hstate', hsucc]

end Sha256

open Sha256

/-- However a message is cut into calls, the buffer is never full between them and the digest is
that of the standard. -/
theorem sha256_chunks_fips (c : Context) {chunks : List (List Byte)}
    (h : chunks.flatten.length < 2 ^ 61) :
    (∀ n, ((chunks.take n).foldl sha256Update (sha256Init c)).datalen < 64) ∧
      sha256Final (chunks.foldl sha256Update (sha256Init c)) =
        Lib.Fips180.sha256 chunks.flatten := by
  have hholds : ∀ {done : List (List Byte)},
      Holds (done.foldl sha256Update (sha256Init c)) (update init done.flatten) := by
    intro done
    induction done using List.reverseRecOn with
    | nil => exact holds_init c
    | append_singleton done piece ih =>
      rw [List.foldl_append, List.flatten_append, update_append, List.flatten_singleton]
      exact holds_update ih piece
  refine ⟨fun n => ?_, ?_⟩
  · rw [hholds.datalen]
    exact hholds.short
  · rw [final_of_holds hholds, ← standard_eq_fips h, ← sha256_eq_standard]
    rfl

/-- A context before `sha256_init`. -/
def staleContext : Context where
  data := List.replicate 64 0xa5
  data_length := List.length_replicate
  datalen := 200
  bitlen := 512
  state := ⟨0, 0, 0, 0, 0, 0, 0, 0⟩

theorem sha256_chunks_fips_abc :
    let chunks := [[0x61], [], [0x62, 0x63]]
    (∀ n, ((chunks.take n).foldl sha256Update (sha256Init staleContext)).datalen < 64) ∧
      sha256Final (chunks.foldl sha256Update (sha256Init staleContext)) =
        Lib.Fips180.sha256 [0x61, 0x62, 0x63] :=
  sha256_chunks_fips staleContext (by decide)

end OtaFix

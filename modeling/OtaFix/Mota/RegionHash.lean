import Mathlib.Data.List.GetD
import OtaFix.Lib.ByteSource
import OtaFix.Mota.Writes
import OtaFix.Sha256Std

/-!
# The hash of a region

`sha256_read_region` once more, in the 32-bit arithmetic of the source and over any
byte source: each chunk of 256 bytes has its overlap with the approval bytes
cleared in the buffer. However the chunks cut the field, the digest is that of the
region with the field cleared (`withoutApproval`).
-/

namespace OtaFix.Mota

open Lib Prog

variable {σ : Type} {cfg : Profile} {env : Env}

/-! ## The loop in 32-bit arithmetic -/

/-- The position that stands for no approval field: `UINT32_MAX`. -/
def noApproval : Nat := 2 ^ 32 - 1

/-- Clear the overlap of the chunk at `addr` with the four approval bytes. -/
def clearOverlap (approvalAt addr n : Nat) (buf : List Byte) : List Byte :=
  if approvalAt = noApproval then buf
  else
    let approvalEnd := add32 approvalAt 4
    let chunkEnd := add32 addr n
    let overlapStart := if approvalAt < addr then addr else approvalAt
    let overlapEnd := if chunkEnd < approvalEnd then chunkEnd else approvalEnd
    if overlapStart < overlapEnd then
      memcpy buf (sub32 overlapStart addr) (List.replicate (sub32 overlapEnd overlapStart) 0)
    else buf

def shaChunks32 (approvalAt : Nat) : Nat → Nat → Nat → Sha256.Ctx → ReadM (Option Sha256.Ctx)
  | 0, _, _, c => return some c
  | fuel + 1, addr, len, c => do
    if len = 0 then return some c
    else
      let n := if len < 256 then len else 256
      let r ← readAt addr n
      match r with
      | none => return none
      | some buf =>
        shaChunks32 approvalAt fuel (add32 addr n) (sub32 len n)
          (Sha256.update c (clearOverlap approvalAt addr n buf))

/-- `sha256_read_region` over a byte source. -/
def sha256ReadRegion32 (addr len approvalAt : Nat) : ReadM (Option (List Byte)) := do
  let r ← shaChunks32 approvalAt (len / 256 + 1) addr len Sha256.init
  return r.map Sha256.final

/-! ## The field is cleared exactly -/

/-- The contents with the approval field zero. -/
def withoutApproval (approvalAt : Option Nat) (f : Mem) (x : Nat) : Byte :=
  match approvalAt with
  | none => f x
  | some at' => if at' ≤ x ∧ x < at' + 4 then 0 else f x

/-- The position in 32 bits, as the callers pass it. -/
def approvalPos (approvalAt : Option Nat) : Nat := approvalAt.getD noApproval

/-- The field does not wrap. -/
def FieldFits (approvalAt : Option Nat) : Prop := ∀ at' ∈ approvalAt, at' + 4 < 2 ^ 32

theorem clearOverlap_slice {f : Mem} {approvalAt : Option Nat} {addr n : Nat}
    (hfit : FieldFits approvalAt) (hend : addr + n < 2 ^ 32) :
    clearOverlap (approvalPos approvalAt) addr n (slice f addr n) =
      slice (withoutApproval approvalAt f) addr n := by
  cases approvalAt with
  | none => rfl
  | some at' =>
    have hat : at' + 4 < 2 ^ 32 := hfit at' rfl
    have hno : noApproval = 2 ^ 32 - 1 := rfl
    unfold clearOverlap
    rw [show approvalPos (some at') = at' from rfl, if_neg (by omega), add32_eq hat,
      add32_eq hend]
    simp only
    rw [show (if at' < addr then addr else at') = max addr at' by
        rw [Nat.max_def]
        split_ifs <;> omega,
      show (if addr + n < at' + 4 then addr + n else at' + 4) = min (addr + n) (at' + 4) by
        rw [Nat.min_def]
        split_ifs <;> omega]
    by_cases hover : max addr at' < min (addr + n) (at' + 4)
    · rw [if_pos hover, sub32_eq (by omega) (by omega), sub32_eq (by omega) (by omega),
        memcpy_slice (by rw [List.length_replicate]; omega)]
      refine slice_congr fun x hx1 hx2 => ?_
      unfold overlay withoutApproval
      rw [List.length_replicate]
      by_cases hx : at' ≤ x ∧ x < at' + 4
      · rw [if_pos (by omega), List.getD_replicate 0 (by omega)]
        simp only
        rw [if_pos hx]
      · rw [if_neg (by omega)]
        simp only
        rw [if_neg hx]
    · rw [if_neg hover]
      refine slice_congr fun x hx1 hx2 => ?_
      unfold withoutApproval
      simp only
      rw [if_neg (by omega)]

/-! ## The digest -/

/-- The loop reads inside the region and hashes its chunks with the field cleared. -/
theorem shaChunks32_sat {h : Source σ} {f : Mem} {approvalAt : Option Nat} (hf : Honest h f)
    (hfit : FieldFits approvalAt) (fuel : Nat) {addr len : Nat} (hfuel : len ≤ 256 * fuel)
    (hend : addr + len < 2 ^ 32) (c : Sha256.Ctx) (s : σ) :
    (shaChunks32 (approvalPos approvalAt) fuel addr len c).Sat h
      (fun x _ => addr ≤ x.1 ∧ x.1 + x.2 ≤ addr + len)
      (fun r _ => ∀ c', r = some c' →
        c' = Sha256.update c (slice (withoutApproval approvalAt f) addr len)) s := by
  induction fuel generalizing addr len c s with
  | zero =>
    obtain rfl : len = 0 := by omega
    intro c' hc'
    exact (Option.some.inj hc').symm
  | succ fuel ih =>
    unfold shaChunks32
    by_cases h0 : len = 0
    · rw [if_pos h0, h0]
      intro c' hc'
      exact (Option.some.inj hc').symm
    rw [if_neg h0]
    simp only
    rw [show (if len < 256 then len else 256) = min len 256 by
      rw [Nat.min_def]
      split_ifs <;> omega]
    set n := min len 256 with hn
    refine sat_readAt.mpr ⟨⟨Nat.le_refl _, by dsimp only; omega⟩, ?_⟩
    cases hr : (h (addr, n) s).1 with
    | none => exact nofun
    | some buf =>
      rw [hf s addr n buf hr]
      simp only
      rw [clearOverlap_slice hfit (by omega), add32_eq (by omega), sub32_eq (by omega) (by omega)]
      refine (ih (by omega) (by omega) _ _).mono (fun x _ hx => by omega) fun r _ hr c' hc' => ?_
      rw [hr c' hc', ← Sha256.update_append, ← slice_add]
      congr 2
      omega

/-- The loop ends without a digest exactly when a read fails. -/
theorem shaChunks32_isSome (h : Source σ) (pos fuel addr len : Nat) (c : Sha256.Ctx) (s : σ) :
    ((shaChunks32 pos fuel addr len c).run h s).1.isSome = true ↔
      ∀ x ∈ (shaChunks32 pos fuel addr len c).trace h s, (h x.1 x.2).1.isSome = true := by
  induction fuel generalizing addr len c s with
  | zero => exact ⟨fun _ => nofun, fun _ => rfl⟩
  | succ fuel ih =>
    unfold shaChunks32
    by_cases h0 : len = 0
    · rw [if_pos h0]
      exact ⟨fun _ => nofun, fun _ => rfl⟩
    rw [if_neg h0]
    simp only
    generalize (if len < 256 then len else 256) = n
    rw [perform_bind, run_call, trace, List.forall_mem_cons]
    cases hr : (h (addr, n) s).1 with
    | none => simp
    | some buf =>
      simp only [Option.isSome_some, true_and]
      exact ih _ _ _ _

/-- The digest is the SHA-256 of the region with its approval field cleared, and a read that
fails leaves none. -/
theorem sha256_read_region_normalises {h : Source σ} {f : Mem} {approvalAt : Option Nat}
    {addr len : Nat} (hf : Honest h f) (hfit : FieldFits approvalAt) (hend : addr + len < 2 ^ 32)
    (s : σ) :
    (∀ d, ((sha256ReadRegion32 addr len (approvalPos approvalAt)).run h s).1 = some d →
      d = Sha256.standard (slice (withoutApproval approvalAt f) addr len)) ∧
    (((sha256ReadRegion32 addr len (approvalPos approvalAt)).run h s).1.isSome = true ↔
      ∀ x ∈ (sha256ReadRegion32 addr len (approvalPos approvalAt)).trace h s,
        (h x.1 x.2).1.isSome = true) ∧
    ∀ x ∈ (sha256ReadRegion32 addr len (approvalPos approvalAt)).trace h s,
      addr ≤ x.1.1 ∧ x.1.1 + x.1.2 ≤ addr + len := by
  have hsat := shaChunks32_sat hf hfit (len / 256 + 1) (by omega) hend Sha256.init s
  have hsome := shaChunks32_isSome h (approvalPos approvalAt) (len / 256 + 1) addr len Sha256.init s
  unfold sha256ReadRegion32
  rw [run_bind, trace_bind]
  simp only [pure_eq, run_ret, trace_ret, List.append_nil, Option.isSome_map]
  refine ⟨fun d hd => ?_, hsome, hsat.trace⟩
  obtain ⟨c, hc, rfl⟩ := Option.map_eq_some_iff.mp hd
  rw [hsat.result c hc, ← Sha256.sha256_eq_standard]
  rfl

/-- A field cut by the end of the first chunk. -/
theorem sha256_read_region_cut : ∃ d,
    ((sha256ReadRegion32 100 300 (approvalPos (some 354))).run
      (memSource fun x => BitVec.ofNat 8 x) ()).1 = some d ∧
    d = Sha256.standard (slice (withoutApproval (some 354) fun x => BitVec.ofNat 8 x) 100 300) := by
  have hfit : FieldFits (some 354) := fun x hx => by
    obtain rfl := Option.some.inj hx
    decide
  have hend : 100 + 300 < 2 ^ 32 := by decide
  obtain ⟨hdigest, hsome, -⟩ := sha256_read_region_normalises
    (honest_memSource fun x => BitVec.ofNat 8 x) hfit hend ()
  obtain ⟨d, hd⟩ := Option.isSome_iff_exists.mp (hsome.mpr fun _ _ => rfl)
  exact ⟨d, hd, hdigest d hd⟩

/-! ## On the device -/

theorem normalizeApproval_slice (approvalAt : Option Nat) (f : Mem) (a n : Nat) :
    normalizeApproval approvalAt a (slice f a n) = slice (withoutApproval approvalAt f) a n := by
  cases approvalAt with
  | none => rfl
  | some at' =>
    refine List.ext_getElem? fun i => ?_
    simp only [normalizeApproval, List.getElem?_map, List.getElem?_zipIdx, Option.map_map]
    by_cases hi : i < n
    · rw [slice_getElem? hi, slice_getElem? hi]
      simp [withoutApproval]
    · rw [List.getElem?_eq_none (by rw [slice_length]; omega),
        List.getElem?_eq_none (by rw [slice_length]; omega)]
      rfl

/-- Any bytes are those of some memory. -/
theorem slice_of_length {d : List Byte} {a n : Nat} (h : d.length = n) :
    slice (fun x => d.getD (x - a) 0) a n = d :=
  slice_eq_of_getD h fun i _ => by rw [Nat.add_sub_cancel_left]

theorem clearOverlap_eq {approvalAt : Option Nat} {addr n : Nat} {d : List Byte}
    (hfit : FieldFits approvalAt) (hend : addr + n < 2 ^ 32) (hlen : d.length = n) :
    clearOverlap (approvalPos approvalAt) addr n d = normalizeApproval approvalAt addr d := by
  rw [← slice_of_length (a := addr) hlen, clearOverlap_slice hfit hend, normalizeApproval_slice]

theorem readRegion_length (staged : Bool) (a n : Nat) (s : Device) :
    (readRegion cfg staged a n).Sat (handler env) (Reads cfg)
      (fun r _ => ∀ d, r = some d → d.length = n) s := by
  refine (readRegion_spec staged a n).post fun r s' h d hd => ?_
  cases staged with
  | true => exact (h.1 rfl d hd).1
  | false =>
    rw [h.2.1 rfl] at hd
    rw [← Option.some.inj hd, slice_length]

/-- Under the reads of the device the loop is `shaChunks`. -/
theorem shaChunks_lift {approvalAt : Option Nat} (staged : Bool) (hfit : FieldFits approvalAt)
    (fuel : Nat) {addr len : Nat} (hend : addr + len < 2 ^ 32) (c : Sha256.Ctx) (s : Device) :
    ((shaChunks32 (approvalPos approvalAt) fuel addr len c).lift
      fun x => readRegion cfg staged x.1 x.2).run (handler env) s =
    (shaChunks cfg staged approvalAt fuel addr len c).run (handler env) s := by
  induction fuel generalizing addr len c s with
  | zero => rfl
  | succ fuel ih =>
    unfold shaChunks32 shaChunks
    by_cases h0 : len = 0
    · rw [if_pos h0, if_pos h0]
      rfl
    rw [if_neg h0, if_neg h0]
    simp only
    rw [show (if len < 256 then len else 256) = min len 256 by
      rw [Nat.min_def]
      split_ifs <;> omega]
    set n := min len 256 with hn
    rw [perform_bind, lift_call]
    refine (readRegion_length staged addr n s).run_bind_congr fun r s' hr => ?_
    cases r with
    | none => rfl
    | some d =>
      simp only
      rw [clearOverlap_eq hfit (by omega) (hr d rfl), add32_eq (by omega),
        sub32_eq (by omega) (by omega)]
      exact ih (by omega) _ _

theorem sha256ReadRegion_lift {approvalAt : Option Nat} (staged : Bool)
    (hfit : FieldFits approvalAt) {addr len : Nat} (hend : addr + len < 2 ^ 32) (s : Device) :
    ((sha256ReadRegion32 addr len (approvalPos approvalAt)).lift
      fun x => readRegion cfg staged x.1 x.2).run (handler env) s =
    (sha256ReadRegion cfg addr len staged approvalAt).run (handler env) s := by
  unfold sha256ReadRegion32 sha256ReadRegion
  rw [lift_bind, run_bind, run_bind, shaChunks_lift staged hfit _ hend]
  rfl

end OtaFix.Mota

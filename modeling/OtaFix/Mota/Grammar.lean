import Mathlib.Algebra.Order.Floor.Div
import OtaFix.Lib.ByteSource
import OtaFix.Mota.Run

/-!
# The container grammar

`parse_mota_at` once more, now in the 32-bit arithmetic of the source and over any
byte source: `parseMotaAt32`. It accepts exactly the containers of the grammar
(`Container`), whose sizes are natural numbers, and reads nothing outside
`[addr, limit)`. Under the reads of the selected staging source it is
`parseMotaAt`.
-/

namespace OtaFix.Mota

open Lib Prog

variable {σ : Type} {cfg : Profile}

/-! ## The parser in 32-bit arithmetic -/

/-- The part of `parse_mota_at` behind the trailer check. -/
def motaManifest32 (cfg : Profile) (addr total : Nat) (header : List Byte) : Option MotaMin :=
  let formatVer := (header.getD 8 0).toNat
  let flags := (header.getD 9 0).toNat
  let payloadSize := wordAt header 23
  let blockSizeLog2 := (header.getD 27 0).toNat
  if formatVer ≠ 2 ∧ ¬ (cfg.bootloaderUpdateEnabled ∧ formatVer = 3) then none
  else if blockSizeLog2 = 0 ∨ 24 < blockSizeLog2 ∨ payloadSize = 0 then none
  else
    let blockSize := (1 <<< blockSizeLog2) % 2 ^ 32
    let quotient := payloadSize >>> blockSizeLog2
    let blockCount :=
      if payloadSize &&& sub32 blockSize 1 ≠ 0 then add32 quotient 1 else quotient
    if blockCount = 0 ∨ 0xFFFF < blockCount then none
    else
      let payloadOffset := add32 motaHeaderLen (blockCount * 4 % 2 ^ 32)
      let payloadEnd := sub32 total motaTrailer.length
      if payloadEnd < payloadOffset ∨ payloadSize ≠ sub32 payloadEnd payloadOffset then none
      else some {
        isFull := flags &&& mflagFull ≠ 0
        approved := (header.drop approvalOffset).take 4 = motaAprv
        formatVer := formatVer
        flags := flags
        hashAlgo := (header.getD 10 0).toNat
        blockSizeLog2 := blockSizeLog2
        total := total
        imageSize := wordAt header 19
        payloadSize := payloadSize
        payloadAddr := add32 addr payloadOffset
        approvalAddr := add32 addr approvalOffset
        targetId := wordAt header 11
        fwVersion := wordAt header 15
        blockCount := blockCount
        imageHash := (header.drop 32).take 32
        codecId := (header.getD 64 0).toNat
        hwId := (header.drop 65).take 32
        baseHash := (header.drop 97).take 8 }

/-- `parse_mota_at` over a byte source. -/
def parseMotaAt32 (cfg : Profile) (addr limit : Nat) : ReadM (Option MotaMin) := do
  if limit < addr then return none
  else
    let avail := sub32 limit addr
    if avail < motaHeaderLen + motaTrailer.length then return none
    else
      let r ← readAt addr motaHeaderLen
      match r with
      | none => return none
      | some header =>
        let total := wordAt header 4
        if header.take 4 ≠ motaMagic then return none
        else if total < motaHeaderLen + motaTrailer.length ∨ avail < total then return none
        else
          let t ← readAt (sub32 (add32 addr total) motaTrailer.length) motaTrailer.length
          if t = some motaTrailer then return motaManifest32 cfg addr total header else return none

/-! ## The grammar -/

/-- The 32-bit little-endian number at `a`. -/
abbrev u32At (f : Mem) (a : Nat) : Nat := readWord f a

/-- The leaves of a payload: its blocks, the last of which may be short. -/
def leafCount (payloadSize blockSizeLog2 : Nat) : Nat := payloadSize ⌈/⌉ 2 ^ blockSizeLog2

/-- A container of `f` at `addr` that ends at or below `limit`. -/
structure Container (cfg : Profile) (f : Mem) (addr limit : Nat) : Prop where
  addr_le : addr ≤ limit
  avail : 210 ≤ limit - addr
  magic : slice f addr 4 = motaMagic
  total_min : 210 ≤ u32At f (addr + 4)
  total_max : u32At f (addr + 4) ≤ limit - addr
  trailer : slice f (addr + u32At f (addr + 4) - 5) 5 = motaTrailer
  format : f (addr + 8) = 2 ∨ cfg.bootloaderUpdateEnabled = true ∧ f (addr + 8) = 3
  log2_min : 1 ≤ (f (addr + 27)).toNat
  log2_max : (f (addr + 27)).toNat ≤ 24
  payload_pos : 0 < u32At f (addr + 23)
  leaves : leafCount (u32At f (addr + 23)) (f (addr + 27)).toNat ≤ 65535
  total_eq : u32At f (addr + 4) =
    205 + 4 * leafCount (u32At f (addr + 23)) (f (addr + 27)).toNat + u32At f (addr + 23) + 5

/-! ## No operation wraps -/

theorem leafCount_eq (p k : Nat) :
    leafCount p k = p / 2 ^ k + if p % 2 ^ k ≠ 0 then 1 else 0 := by
  have hk : 0 < 2 ^ k := Nat.two_pow_pos k
  have hdm := Nat.div_add_mod' p (2 ^ k)
  have hlt := Nat.mod_lt p hk
  unfold leafCount
  rw [Nat.ceilDiv_eq_add_pred_div]
  refine Nat.div_eq_of_lt_le ?_ ?_
  · split_ifs
    · rw [Nat.add_mul]
      omega
    · rw [Nat.add_zero]
      omega
  · split_ifs
    · rw [Nat.add_mul, Nat.add_mul]
      omega
    · rw [Nat.add_zero, Nat.add_mul]
      omega

/-- The quotient and the masked remainder give the exact leaf count. -/
theorem blockCount32_eq {p k : Nat} (hp : p < 2 ^ 32) (hk : 1 ≤ k) (hk' : k ≤ 24) :
    (if p &&& sub32 ((1 <<< k) % 2 ^ 32) 1 ≠ 0 then add32 (p >>> k) 1 else p >>> k) =
      leafCount p k := by
  have hpow : 2 ^ k < 2 ^ 32 := Nat.pow_lt_pow_right (by omega) (by omega)
  have hpos : 0 < 2 ^ k := Nat.two_pow_pos k
  have h2 : 2 ^ 1 ≤ 2 ^ k := Nat.pow_le_pow_right (by omega) hk
  have hquot : p / 2 ^ k ≤ p / 2 := Nat.div_le_div_left h2 (by omega)
  rw [Nat.shiftLeft_eq, Nat.one_mul, Nat.mod_eq_of_lt hpow, sub32_eq hpow hpos,
    Nat.and_two_pow_sub_one_eq_mod, Nat.shiftRight_eq_div_pow, leafCount_eq,
    add32_eq (by omega)]
  split_ifs <;> rfl

theorem motaManifest32_eq {addr total : Nat} {header : List Byte} (hmin : 210 ≤ total)
    (hend : addr + total < 2 ^ 32) :
    motaManifest32 cfg addr total header = motaManifest cfg addr total header := by
  have hlen : motaTrailer.length = 5 := rfl
  have hhead : motaHeaderLen = 205 := rfl
  have happroval : add32 addr approvalOffset = addr + approvalOffset :=
    add32_eq (by rw [show approvalOffset = 201 from rfl]; omega)
  unfold motaManifest32 motaManifest
  simp only
  by_cases hver : (header.getD 8 0).toNat ≠ 2 ∧
      ¬ (cfg.bootloaderUpdateEnabled ∧ (header.getD 8 0).toNat = 3)
  · rw [if_pos hver, if_pos hver]
  rw [if_neg hver, if_neg hver]
  by_cases hbad : (header.getD 27 0).toNat = 0 ∨ 24 < (header.getD 27 0).toNat ∨
      wordAt header 23 = 0
  · rw [if_pos hbad, if_pos hbad]
  rw [if_neg hbad, if_neg hbad]
  have hcode := blockCount32_eq (p := wordAt header 23) (k := (header.getD 27 0).toNat)
    (get32_lt _ _ _ _) (by omega) (by omega)
  rw [hcode, ← leafCount_eq]
  generalize leafCount (wordAt header 23) (header.getD 27 0).toNat = count
  by_cases hcount : count = 0 ∨ 0xFFFF < count
  · rw [if_pos hcount, if_pos hcount]
  rw [if_neg hcount, if_neg hcount]
  have hoff : add32 motaHeaderLen (count * 4 % 2 ^ 32) = motaHeaderLen + count * 4 := by
    rw [Nat.mod_eq_of_lt (by omega), add32_eq (by omega)]
  have hstop : sub32 total motaTrailer.length = total - motaTrailer.length :=
    sub32_eq (by omega) (by omega)
  rw [hoff, hstop, happroval]
  by_cases hlow : total - motaTrailer.length < motaHeaderLen + count * 4
  · rw [if_pos (.inl hlow), if_pos (.inl hlow)]
  rw [sub32_eq (by omega) (by omega), add32_eq (a := addr) (by omega)]

/-- Under the reads of the selected source the parser is `parseMotaAt`. -/
theorem parseMotaAt_lift {addr limit : Nat} (hlimit : limit < 2 ^ 32) :
    (parseMotaAt32 cfg addr limit).lift (fun x => stagedRead cfg x.1 x.2) =
      parseMotaAt cfg addr limit := by
  have hlen : motaTrailer.length = 5 := rfl
  have hhead : motaHeaderLen = 205 := rfl
  unfold parseMotaAt32 parseMotaAt
  by_cases hle : limit < addr
  · rw [if_pos hle, if_pos hle]
    rfl
  rw [if_neg hle, if_neg hle]
  simp only
  rw [sub32_eq hlimit (by omega)]
  by_cases havail : limit - addr < motaHeaderLen + motaTrailer.length
  · rw [if_pos havail, if_pos havail]
    rfl
  rw [if_neg havail, if_neg havail, perform_bind, lift_call]
  refine congrArg (stagedRead cfg addr motaHeaderLen >>= ·) (funext fun r => ?_)
  cases r with
  | none => rfl
  | some header =>
    have htotal : wordAt header 4 < 2 ^ 32 := get32_lt _ _ _ _
    simp only
    by_cases hmagic : header.take 4 ≠ motaMagic
    · rw [if_pos hmagic, if_pos hmagic]
      rfl
    rw [if_neg hmagic, if_neg hmagic]
    by_cases hsize : wordAt header 4 < motaHeaderLen + motaTrailer.length ∨
        limit - addr < wordAt header 4
    · rw [if_pos hsize, if_pos hsize]
      rfl
    rw [if_neg hsize, if_neg hsize, perform_bind, lift_call, add32_eq (by omega),
      sub32_eq (by omega) (by omega), motaManifest32_eq (by omega) (by omega)]
    refine congrArg (stagedRead cfg _ motaTrailer.length >>= ·) (funext fun t => ?_)
    by_cases ht : t = some motaTrailer
    · rw [if_pos ht, if_pos ht]
      rfl
    · rw [if_neg ht, if_neg ht]
      rfl

/-! ## Acceptance -/

/-- A manifest of the container of `f` at `addr`: what it says of its own layout. -/
structure Describes (f : Mem) (addr : Nat) (m : MotaMin) : Prop where
  total : m.total = u32At f (addr + 4)
  payloadSize : m.payloadSize = u32At f (addr + 23)
  approval : m.approvalAddr = addr + approvalOffset
  approval_in : m.approvalAddr + 4 ≤ m.payloadAddr
  payload_in : m.payloadAddr + m.payloadSize + 5 = addr + m.total

theorem isSome_ite_none {α : Type} {c : Prop} [Decidable c] {x : Option α} :
    (if c then none else x).isSome = true ↔ ¬ c ∧ x.isSome = true := by
  split_ifs with h
  · simp [h]
  · simp [h]

/-- The checks behind the trailer are those of the grammar. -/
theorem motaManifest_isSome {f : Mem} {addr limit : Nat} (hle : addr ≤ limit)
    (havail : 210 ≤ limit - addr) (hmagic : slice f addr 4 = motaMagic)
    (hmin : 210 ≤ u32At f (addr + 4)) (hmax : u32At f (addr + 4) ≤ limit - addr)
    (htrailer : slice f (addr + u32At f (addr + 4) - 5) 5 = motaTrailer) :
    (motaManifest cfg addr (u32At f (addr + 4)) (slice f addr motaHeaderLen)).isSome = true ↔
      Container cfg f addr limit := by
  have hhead : motaHeaderLen = 205 := rfl
  have hlen : motaTrailer.length = 5 := rfl
  have hver : (f (addr + 8)).toNat = 2 ↔ f (addr + 8) = 2 := BitVec.toNat_inj (y := 2#8)
  have hver3 : (f (addr + 8)).toNat = 3 ↔ f (addr + 8) = 3 := BitVec.toNat_inj (y := 3#8)
  have hpay : wordAt (slice f addr motaHeaderLen) 23 = u32At f (addr + 23) :=
    wordAt_slice (by omega)
  have h8 : (slice f addr motaHeaderLen).getD 8 0 = f (addr + 8) := slice_getD_add (by omega)
  have h27 : (slice f addr motaHeaderLen).getD 27 0 = f (addr + 27) := slice_getD_add (by omega)
  unfold motaManifest
  simp only [h8, h27, hpay, ← leafCount_eq, isSome_ite_none, ne_eq, hver, hver3]
  constructor
  · rintro ⟨hformat, hlog, hcount, hsize, -⟩
    refine ⟨hle, havail, hmagic, hmin, hmax, htrailer, ?_, by omega, by omega, by omega, by omega,
      by omega⟩
    by_contra hne
    rw [not_or] at hne
    exact hformat ⟨hne.1, hne.2⟩
  · intro hc
    have hpos := hc.payload_pos
    have hleaf : 0 < leafCount (u32At f (addr + 23)) (f (addr + 27)).toNat := by
      have hmul := le_smul_ceilDiv (b := u32At f (addr + 23))
        (Nat.two_pow_pos (f (addr + 27)).toNat)
      exact Nat.pos_of_mul_pos_left (Nat.lt_of_lt_of_le hpos hmul)
    have hcap := hc.leaves
    have htot := hc.total_eq
    have hlo := hc.log2_min
    have hhi := hc.log2_max
    refine ⟨?_, by omega, by omega, by omega, rfl⟩
    rintro ⟨hn2, hn3⟩
    rcases hc.format with h2 | h3
    · exact hn2 h2
    · exact hn3 h3

/-- What an accepted manifest says of the layout. -/
theorem motaManifest_describes {f : Mem} {addr : Nat} {m : MotaMin}
    (hmin : 210 ≤ u32At f (addr + 4))
    (h : motaManifest cfg addr (u32At f (addr + 4)) (slice f addr motaHeaderLen) = some m) :
    Describes f addr m := by
  have hhead : motaHeaderLen = 205 := rfl
  have hlen : motaTrailer.length = 5 := rfl
  have hap : approvalOffset = 201 := rfl
  unfold motaManifest at h
  simp only [Option.ite_none_left_eq_some, Option.some_inj] at h
  obtain ⟨-, hlog, hcount, hsize, rfl⟩ := h
  refine ⟨rfl, wordAt_slice (by omega), rfl, ?_, ?_⟩
  · simp only
    omega
  · simp only
    omega

/-- The run of the parser, its reads included. -/
theorem parseMotaAt32_sat {h : Source σ} {f : Mem} {addr limit : Nat} (hlimit : limit < 2 ^ 32)
    (hserve : Serves h f addr limit) (s : σ) :
    (parseMotaAt32 cfg addr limit).Sat h (fun x _ => addr ≤ x.1 ∧ x.1 + x.2 ≤ limit)
      (fun r _ => (r.isSome = true ↔ Container cfg f addr limit) ∧
        ∀ m, r = some m → Describes f addr m) s := by
  have hhead : motaHeaderLen = 205 := rfl
  have hlen : motaTrailer.length = 5 := rfl
  have hno : ∀ {c : Prop}, ¬ c →
      ((none : Option MotaMin).isSome = true ↔ c) ∧ ∀ m, none = some m → Describes f addr m :=
    fun hc => ⟨⟨nofun, fun h => (hc h).elim⟩, nofun⟩
  unfold parseMotaAt32
  by_cases hle : limit < addr
  · rw [if_pos hle]
    refine hno fun hc => ?_
    have := hc.addr_le
    omega
  rw [if_neg hle]
  simp only
  rw [sub32_eq hlimit (by omega)]
  by_cases havail : limit - addr < motaHeaderLen + motaTrailer.length
  · rw [if_pos havail]
    refine hno fun hc => ?_
    have := hc.avail
    omega
  rw [if_neg havail]
  refine sat_readAt.mpr ⟨⟨Nat.le_refl _, by omega⟩, ?_⟩
  rw [hserve s addr motaHeaderLen (Nat.le_refl _) (by omega)]
  simp only
  have htotal : wordAt (slice f addr motaHeaderLen) 4 = u32At f (addr + 4) :=
    wordAt_slice (by omega)
  have hlt : u32At f (addr + 4) < 2 ^ 32 := readWord_lt _ _
  rw [htotal, slice_take (by omega)]
  by_cases hmagic : slice f addr 4 ≠ motaMagic
  · rw [if_pos hmagic]
    exact hno fun hc => hmagic hc.magic
  rw [if_neg hmagic]
  by_cases hsize : u32At f (addr + 4) < motaHeaderLen + motaTrailer.length ∨
      limit - addr < u32At f (addr + 4)
  · rw [if_pos hsize]
    refine hno fun hc => ?_
    have := hc.total_min
    have := hc.total_max
    omega
  rw [if_neg hsize, add32_eq (by omega), sub32_eq (by omega) (by omega),
    motaManifest32_eq (by omega) (by omega)]
  refine sat_readAt.mpr ⟨⟨by dsimp only; omega, by dsimp only; omega⟩, ?_⟩
  rw [hserve _ _ motaTrailer.length (by omega) (by omega)]
  by_cases ht : slice f (addr + u32At f (addr + 4) - motaTrailer.length) motaTrailer.length =
      motaTrailer
  · rw [if_pos (congrArg some ht)]
    exact ⟨motaManifest_isSome (by omega) (by omega) (not_not.mp hmagic) (by omega) (by omega) ht,
      fun m hm => motaManifest_describes (by omega) hm⟩
  · rw [if_neg fun h => ht (Option.some.inj h)]
    exact hno fun hc => ht hc.trailer

/-- The parser accepts exactly the containers of the grammar; what it returns lies in the
container, and so does everything it reads in `[addr, limit)`. -/
theorem parse_mota_at_grammar {h : Source σ} {f : Mem} {addr limit : Nat} (hlimit : limit < 2 ^ 32)
    (hserve : Serves h f addr limit) (s : σ) :
    (((parseMotaAt32 cfg addr limit).run h s).1.isSome = true ↔ Container cfg f addr limit) ∧
    (∀ m, ((parseMotaAt32 cfg addr limit).run h s).1 = some m →
      m.total = u32At f (addr + 4) ∧ addr + m.total ≤ limit ∧
      (addr ≤ m.payloadAddr ∧ m.payloadAddr + m.payloadSize ≤ addr + m.total) ∧
      (addr ≤ m.approvalAddr ∧ m.approvalAddr + 4 ≤ addr + m.total)) ∧
    ∀ x ∈ (parseMotaAt32 cfg addr limit).trace h s, addr ≤ x.1.1 ∧ x.1.1 + x.1.2 ≤ limit := by
  have hsat : (parseMotaAt32 cfg addr limit).Sat h _ _ s := parseMotaAt32_sat hlimit hserve s
  obtain ⟨hiff, hdesc⟩ := hsat.result
  refine ⟨hiff, fun m hm => ?_, hsat.trace⟩
  obtain ⟨htotal, -, happroval, hin, hend⟩ := hdesc m hm
  have hmax := (hiff.mp (by rw [hm]; rfl)).total_max
  have hle := (hiff.mp (by rw [hm]; rfl)).addr_le
  exact ⟨htotal, by omega, ⟨by omega, by omega⟩, by omega, by omega⟩

/-- The sample container, read out of memory behind sixteen other bytes. -/
theorem parse_mota_at_sample :
    Container sampleProfile
      (fun x => (List.replicate 16 0xFF ++ sampleContainer sampleBaseHash).getD x 0xFF) 16 0x1000 :=
  (parse_mota_at_grammar (by omega) (serves_memSource _ 16 0x1000) ()).1.mp (by decide +kernel)

end OtaFix.Mota

import OtaFix.SecureDfu.Pointer

/-!
# Encodings of an init packet

Two strings that decode to the same items may differ in their varints alone. The
shortest varints make the shortest string (`Packet.covers`), and any other reading of
the same items is longer. The parser takes an overlong length, key or value in any place
but the outer tags, so an accepted string is the only encoding of its items
exactly when it is the shortest one and fills the command buffer.
-/

namespace OtaFix.SecureDfu

open Lib Lib.Protobuf

variable {cfg : Platform} {items : List Item} {data data' command command' : List Byte}

/-! ## The shortest encoding -/

theorem Encodes.covers {x : Item} {l l' : List Byte} (h : Encodes Shortest x l)
    (h' : Encodes Varint32 x l') : Covers l l' := by
  obtain ⟨field, hrec, htyped⟩ := h
  obtain ⟨field', hrec', htyped'⟩ := h'
  cases htyped with
  | scalar _ =>
    cases htyped' with
    | scalar _ =>
      obtain ⟨k, v, hk, hv, rfl⟩ := record_varint_iff.mp hrec
      obtain ⟨k', v', hk', hv', rfl⟩ := record_varint_iff.mp hrec'
      exact (hk.covers hk'.varint).append (hv.covers hv'.varint)
  | sdReq hvs =>
    cases htyped' with
    | sdReq hvs' =>
      obtain ⟨k, p, hk, hp, rfl⟩ := record_bytes_iff.mp hrec
      obtain ⟨k', p', hk', hp', rfl⟩ := record_bytes_iff.mp hrec'
      have hbody := Concat.covers (fun _ _ _ h h' => h.covers h'.varint) hvs hvs'
      exact (hk.covers hk'.varint).append (covers_prefixed hbody hp hp'.varint)
  | hash _ =>
    cases htyped' with
    | hash _ =>
      obtain ⟨k, p, hk, hp, rfl⟩ := record_bytes_iff.mp hrec
      obtain ⟨k', p', hk', hp', rfl⟩ := record_bytes_iff.mp hrec'
      exact (hk.covers hk'.varint).append (covers_prefixed (.refl _) hp hp'.varint)

theorem Packet.covers (h : Packet Shortest items data command)
    (h' : Packet Varint32 items data' command') : Covers data data' := by
  obtain ⟨⟨k, l, hk, hl, rfl⟩, k1, l1, k2, l2, init, hk1, hl1, hk2, hl2, hcommand, hinit⟩ :=
    packet_iff.mp h
  obtain ⟨⟨k', l', hk', hl', rfl⟩, k1', l1', k2', l2', init', hk1', hl1', hk2', hl2', hcommand',
    hinit'⟩ := packet_iff.mp h'
  have hbody : Covers init init' := Concat.covers (fun _ _ _ h h' => h.covers h') hinit hinit'
  have hframe : Covers command command' := by
    rw [hcommand, hcommand']
    exact (hk1.covers hk1'.varint).append ((hl1.covers hl1'.varint).append
      ((hk2.covers hk2'.varint).append (covers_prefixed hbody hl2 hl2'.varint)))
  exact (hk.covers hk'.varint).append (covers_prefixed hframe hl hl'.varint)

theorem Encodes.exists_shortest {x : Item} {l : List Byte} (h : Encodes Varint32 x l) :
    ∃ l', Encodes Shortest x l' := by
  obtain ⟨field, hrec, htyped⟩ := h
  cases htyped with
  | scalar hfield =>
    obtain ⟨k, v, hk, hv, rfl⟩ := record_varint_iff.mp hrec
    obtain ⟨k', hk'⟩ := Protobuf.exists_shortest hk.lt
    obtain ⟨v', hv'⟩ := Protobuf.exists_shortest hv.lt
    exact ⟨_, _, .varint hk' hv', .scalar hfield⟩
  | @sdReq vs b hvs =>
    obtain ⟨k, p, hk, hp, rfl⟩ := record_bytes_iff.mp hrec
    obtain ⟨b', hvs'⟩ := hvs.exists fun v _ h => Protobuf.exists_shortest h.lt
    have hle := (Concat.covers (fun _ _ _ h h' => h.covers h'.varint) hvs' hvs).1
    obtain ⟨k', hk'⟩ := Protobuf.exists_shortest hk.lt
    obtain ⟨p', hp'⟩ := Protobuf.exists_shortest (lt_of_le_of_lt hle hp.lt)
    exact ⟨_, _, .bytes hk' hp', .sdReq hvs'⟩
  | hash hlen =>
    obtain ⟨k, p, hk, hp, rfl⟩ := record_bytes_iff.mp hrec
    obtain ⟨k', hk'⟩ := Protobuf.exists_shortest hk.lt
    obtain ⟨p', hp'⟩ := Protobuf.exists_shortest hp.lt
    exact ⟨_, _, .bytes hk' hp', .hash hlen⟩

theorem Encodes.mono {x : Item} {l : List Byte} (h : Encodes Shortest x l) :
    Encodes Varint32 x l := by
  obtain ⟨field, hrec, htyped⟩ := h
  refine ⟨field, ?_, ?_⟩
  · cases hrec with
    | varint hk hl => exact .varint hk.toVarint32 hl.toVarint32
    | bytes hk hl => exact .bytes hk.toVarint32 hl.toVarint32
  · cases htyped with
    | scalar h => exact .scalar h
    | sdReq h => exact .sdReq (h.mono fun _ _ h => h.toVarint32)
    | hash h => exact .hash h

theorem Packet.mono (h : Packet Shortest items data command) :
    Packet Varint32 items data command := by
  obtain ⟨⟨k, l, hk, hl, hdata⟩, k1, l1, k2, l2, init, hk1, hl1, hk2, hl2, hcommand, hinit⟩ :=
    packet_iff.mp h
  exact packet_iff.mpr ⟨⟨k, l, hk.toVarint32, hl.toVarint32, hdata⟩, k1, l1, k2, l2, init,
    hk1.toVarint32, hl1.toVarint32, hk2.toVarint32, hl2.toVarint32, hcommand,
    hinit.mono fun _ _ h => h.mono⟩

/-- Every packet has a shortest form. -/
theorem Packet.exists_shortest (h : Packet Varint32 items data command) :
    ∃ data' command', Packet Shortest items data' command' := by
  obtain ⟨⟨k, l, hk, hl, rfl⟩, k1, l1, k2, l2, init, hk1, hl1, hk2, hl2, rfl, hinit⟩ :=
    packet_iff.mp h
  obtain ⟨init', hinit'⟩ := hinit.exists fun _ _ h => h.exists_shortest
  have hle := (Concat.covers (fun _ _ _ h h' => h.covers h') hinit' hinit).1
  obtain ⟨k1', hk1'⟩ := Protobuf.exists_shortest hk1.lt
  obtain ⟨l1', hl1'⟩ := Protobuf.exists_shortest hl1.lt
  obtain ⟨k2', hk2'⟩ := Protobuf.exists_shortest hk2.lt
  obtain ⟨l2', hl2'⟩ := Protobuf.exists_shortest (lt_of_le_of_lt hle hl2.lt)
  have hframe := (hk1'.covers hk1.varint).append ((hl1'.covers hl1.varint).append
    ((hk2'.covers hk2.varint).append
      (covers_prefixed (Concat.covers (fun _ _ _ h h' => h.covers h') hinit' hinit) hl2' hl2.varint)))
  obtain ⟨k', hk'⟩ := Protobuf.exists_shortest hk.lt
  obtain ⟨l', hl'⟩ := Protobuf.exists_shortest (lt_of_le_of_lt hframe.1 hl.lt)
  exact ⟨_, _, packet_iff.mpr ⟨⟨k', l', hk', hl', rfl⟩, k1', l1', k2', l2', init', hk1', hl1', hk2',
    hl2', rfl, hinit'⟩⟩

/-! ## The accepted encodings -/

def Accepted (cfg : Platform) (data : List Byte) : Prop :=
  ∃ image, secureDfuParseCommand cfg data = some image

/-- The same fields, wire types and values at every level. -/
def SameDecoding (data data' : List Byte) : Prop :=
  ∃ items command command', Packet Varint32 items data command ∧
    Packet Varint32 items data' command'

/-- No key, length or value is overlong. -/
def Canonical (data : List Byte) : Prop := ∃ items command, Packet Shortest items data command

theorem accepted_iff : Accepted cfg data ↔ Accepts cfg data := by
  constructor
  · rintro ⟨image, h⟩
    obtain ⟨hlen, items, command, digest, hpacket, htag, htags, hempty, hvalid, -⟩ :=
      secureDfuParseCommand_iff.mp h
    exact ⟨hlen, items, command, _, digest, hpacket, htag, htags, hempty, hvalid⟩
  · rintro ⟨hlen, items, command, size, digest, hpacket, htag, htags, hempty, hvalid⟩
    exact ⟨⟨size, digest.reverse⟩, secureDfuParseCommand_iff.mpr
      ⟨hlen, items, command, digest, hpacket, htag, htags, hempty, hvalid, rfl⟩⟩

theorem shortest_eq_byte {c : Byte} {k : List Byte} (h : Shortest c.toNat k) (hc : c.toNat < 128) :
    k = [c] := by
  have hcovers := h.covers (.last hc)
  have hpos := List.length_pos_iff.mpr h.varint.ne_nil
  exact hcovers.2 (Nat.le_antisymm hcovers.1 hpos)

/-- The shortest form has its tags in one byte each. -/
theorem Packet.tags (h : Packet Shortest items data command) :
    [10] <+: data ∧ [8, 1, 18] <+: command := by
  obtain ⟨⟨k, l, hk, hl, rfl⟩, k1, l1, k2, l2, init, hk1, hl1, hk2, hl2, rfl, hinit⟩ :=
    packet_iff.mp h
  obtain rfl := shortest_eq_byte (show Shortest (10 : Byte).toNat k from hk) (by decide)
  obtain rfl := shortest_eq_byte (show Shortest (8 : Byte).toNat k1 from hk1) (by decide)
  obtain rfl := shortest_eq_byte (show Shortest (1 : Byte).toNat l1 from hl1) (by decide)
  obtain rfl := shortest_eq_byte (show Shortest (18 : Byte).toNat k2 from hk2) (by decide)
  exact ⟨⟨_, rfl⟩, ⟨_, rfl⟩⟩

/-- The length of the command with a leading zero digit more. -/
theorem Packet.overlong (h : Packet Shortest items data command) (hlen : data.length ≤ commandMax) :
    ∃ data', Packet Varint32 items data' command ∧ [10] <+: data' ∧
      data'.length = data.length + 1 := by
  have htags := h.tags
  have hlong : Varint 16383 [0xFF, 0x7F] := (varint32_of (by decide +kernel)).varint
  obtain ⟨⟨k, l, hk, hl, rfl⟩, hcommand⟩ := packet_iff.mp h
  obtain ⟨l', hl', hlen'⟩ := hl.varint.overlong
  have hcmd : commandMax = 256 := rfl
  rw [List.length_append, List.length_append] at hlen
  have hshort := hl.length_le_of_le hlong (by omega)
  rw [List.length_cons, List.length_singleton] at hshort
  obtain rfl := shortest_eq_byte (show Shortest (10 : Byte).toNat k from hk) (by decide)
  refine ⟨[10] ++ (l' ++ command), packet_iff.mpr
    ⟨⟨[10], l', hk.toVarint32, ⟨hl', by omega, hl.lt⟩, rfl⟩, (packet_iff.mp h.mono).2⟩, ⟨_, rfl⟩, ?_⟩
  simp only [List.length_append, hlen']
  omega

/-- An accepted string is the one encoding of its items exactly when its varints are the shortest
ones and it fills the command buffer, so that no longer encoding fits; among strings with
the shortest varints there is one for each sequence of items. -/
theorem secure_dfu_one_encoding_iff {cfg : Platform} {data : List Byte} (h : Accepted cfg data) :
    ((∀ data', Accepted cfg data' → SameDecoding data data' → data' = data) ↔
      Canonical data ∧ data.length = commandMax) ∧
    ∀ data', Accepted cfg data' → SameDecoding data data' → Canonical data → Canonical data' →
      data' = data := by
  obtain ⟨hlen, items, command, size, digest, hpacket, htag, htags, hempty, hvalid⟩ :=
    accepted_iff.mp h
  have hcanonical : ∀ data' command', Packet Shortest items data' command' →
      data'.length ≤ commandMax → Accepted cfg data' := fun data' command' h' hlen' =>
    accepted_iff.mpr ⟨hlen', items, command', size, digest, h'.mono, h'.tags.1, h'.tags.2, hempty,
      hvalid⟩
  refine ⟨⟨fun honly => ?_, ?_⟩, ?_⟩
  · obtain ⟨data', command', hshort⟩ := hpacket.exists_shortest
    have hle := (hshort.covers hpacket).1
    obtain rfl := honly data' (hcanonical _ _ hshort (by omega))
      ⟨items, command, command', hpacket, hshort.mono⟩
    refine ⟨⟨items, command', hshort⟩, ?_⟩
    by_contra hne
    obtain ⟨long, hlong, htag', hlen'⟩ := hshort.overlong hlen
    have heq := honly long (accepted_iff.mpr ⟨by omega, items, command', size, digest, hlong, htag',
      hshort.tags.2, hempty, hvalid⟩) ⟨items, command, command', hpacket, hlong⟩
    rw [heq] at hlen'
    omega
  · rintro ⟨⟨items', command', hshort⟩, hfull⟩ data' hacc ⟨items1, c, c', hd, hd'⟩
    obtain ⟨rfl, -⟩ := hshort.mono.unique hd
    have hcovers := hshort.covers hd'
    have hge := hcovers.1
    have hle := (accepted_iff.mp hacc).1
    exact (hcovers.2 (by omega)).symm
  · rintro data' - ⟨items1, c, c', hd, hd'⟩ ⟨items2, c2, h2⟩ ⟨items3, c3, h3⟩
    obtain ⟨rfl, -⟩ := h2.mono.unique hd
    obtain ⟨rfl, -⟩ := h3.mono.unique hd'
    have hone := h2.covers hd'
    have htwo := h3.covers hd
    exact (hone.2 (Nat.le_antisymm hone.1 htwo.1)).symm

/-! ## Samples -/

theorem shortest_of {l : List Byte} {v : Nat} (h : varint l = some (v, []))
    (hmin : l.length = 1 ∨ l.getLast? ≠ some 0) : Shortest v l := ⟨varint32_of h, hmin⟩

theorem shortest_byte {c : Byte} (h : c.toNat < 128) : Shortest c.toNat [c] :=
  ⟨varint32_byte h, .inl rfl⟩

theorem packed_ones_shortest (n : Nat) :
    Packed Shortest (List.replicate n 1) (List.replicate n 1) := by
  induction n with
  | zero => exact .nil
  | succ n ih => exact .cons (shortest_byte (by decide) : Shortest (1 : Byte).toNat [1]) ih

/-- 256 bytes, with a list of 203 SoftDevices. -/
def fullCommand : List Byte :=
  [10] ++ ([0xFD, 0x01] ++ sampleCommand [0xF8, 0x01]
    (sampleInit ([0x1A] ++ ([0xCB, 0x01] ++ List.replicate 203 1))))

theorem secure_dfu_one_encoding_full : Accepted samplePlatform fullCommand ∧
    ∀ data', Accepted samplePlatform data' → SameDecoding fullCommand data' →
      data' = fullCommand := by
  have hacc : Accepted samplePlatform fullCommand :=
    Option.isSome_iff_exists.mp (by decide +kernel)
  have hlist : Encodes Shortest (.sdReq (List.replicate 203 1))
      ([0x1A] ++ ([0xCB, 0x01] ++ List.replicate 203 1)) :=
    ⟨_, .bytes (shortest_byte (by decide) : Shortest (0x1A : Byte).toNat [0x1A])
      (shortest_of (by decide +kernel) (.inr (by decide)) :
        Shortest (List.replicate 203 (1 : Byte)).length [0xCB, 1]), .sdReq (packed_ones_shortest 203)⟩
  have hpacket := sampleCommand_packet (fun _ => shortest_byte) (concat_singleton hlist)
    (shortest_byte (by decide) : Shortest (10 : Byte).toNat [10])
    (shortest_of (show varint [0xF8, 0x01] = _ by decide +kernel) (.inr (by decide)))
    (shortest_of (show varint [0xFD, 0x01] = _ by decide +kernel) (.inr (by decide)))
  exact ⟨hacc, (secure_dfu_one_encoding_iff hacc).1.mpr ⟨⟨_, _, hpacket⟩, by decide +kernel⟩⟩

/-- `shortCommand` with the length of the command in two bytes. -/
def overlongLength : List Byte := [10] ++ ([0xB0, 0x00] ++ sampleCommand [44] (sampleInit [0x18, 1]))

/-- Two accepted strings with the same decoding. -/
theorem secure_dfu_two_encodings :
    Accepted samplePlatform shortCommand ∧ Accepted samplePlatform overlongLength ∧
    SameDecoding shortCommand overlongLength ∧ shortCommand ≠ overlongLength := by
  have hreq := concat_singleton encodes_sdReq_one
  have hshort := sampleCommand_packet (fun _ => varint32_byte) hreq
    (varint32_of (show varint [10] = _ by decide)) (varint32_of (show varint [44] = _ by decide +kernel))
    (varint32_of (show varint [48] = _ by decide +kernel))
  have hlong := sampleCommand_packet (fun _ => varint32_byte) hreq
    (varint32_of (show varint [10] = _ by decide)) (varint32_of (show varint [44] = _ by decide +kernel))
    (varint32_of (show varint [0xB0, 0x00] = _ by decide +kernel))
  refine ⟨Option.isSome_iff_exists.mp ?_, Option.isSome_iff_exists.mp ?_,
    ⟨_, _, _, hshort, hlong⟩, ?_⟩
  all_goals decide +kernel

end OtaFix.SecureDfu

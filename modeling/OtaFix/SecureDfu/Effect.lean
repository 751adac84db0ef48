import OtaFix.SecureDfu.Session

/-!
# What one call does

`Effect cfg s s' calls` lists every change a control write or a packet can make
to the session, with the guard it passed and the hooks it invoked. The two
entry points are inverted into it once; the invariants are proved over it.
-/

namespace OtaFix.SecureDfu

inductive Effect (cfg : Platform) (s : Session) : Session → List Call → Prop where
  /-- Nothing but the selection and the receipt counters. -/
  | quiet (sel : Option ObjectType) (prn cnt : Nat) :
      Effect cfg s { s with selected := sel, prn := prn, prnCount := cnt } []
  | createCommand {n : Nat} (hf : s.failed = false) (hc : s.completed = false) (h0 : 0 < n)
      (hn : n ≤ commandMax) :
      Effect cfg s { secureDfuInit with
        prn := s.prn, commandSize := n, selected := some .command } [.reset]
  | createData {n : Nat} (hf : s.failed = false) (hc : s.completed = false)
      (hi : s.initialized = true) (h0 : 0 < n)
      (hn : n = min (sub32 s.image.size s.committed) objectMax) :
      Effect cfg s { s with
        objectSize := n, objectOffset := 0, dataCrc := s.committedCrc, executed := false,
        selected := some .data, prnCount := 0 } []
  | beginOk {image : Image} (hf : s.failed = false) (hi : s.initialized = false)
      (hoff : s.commandOffset = s.commandSize)
      (hp : secureDfuParseCommand cfg (s.command.take s.commandSize) = some image) :
      Effect cfg s { s with image := image, initialized := true } [.begin image true]
  | beginFail {image : Image} (hf : s.failed = false) (hi : s.initialized = false)
      (hoff : s.commandOffset = s.commandSize)
      (hp : secureDfuParseCommand cfg (s.command.take s.commandSize) = some image) :
      Effect cfg s { s with image := image, failed := true } [.begin image false]
  | writeFail (hf : s.failed = false) (hi : s.initialized = true) (he : s.executed = false)
      (h0 : 0 < s.objectSize) (hoff : s.objectOffset = s.objectSize) :
      Effect cfg s { s with failed := true } [.write (s.data.take s.objectSize) false]
  | writeMore (hf : s.failed = false) (hi : s.initialized = true) (he : s.executed = false)
      (h0 : 0 < s.objectSize) (hoff : s.objectOffset = s.objectSize)
      (hne : add32 s.committed s.objectSize ≠ s.image.size) :
      Effect cfg s (commitObject s) [.write (s.data.take s.objectSize) true]
  | finishOk (hf : s.failed = false) (hi : s.initialized = true) (he : s.executed = false)
      (h0 : 0 < s.objectSize) (hoff : s.objectOffset = s.objectSize)
      (heq : add32 s.committed s.objectSize = s.image.size) :
      Effect cfg s { commitObject s with completed := true }
        [.write (s.data.take s.objectSize) true, .finish true]
  | finishFail (hf : s.failed = false) (hi : s.initialized = true) (he : s.executed = false)
      (h0 : 0 < s.objectSize) (hoff : s.objectOffset = s.objectSize)
      (heq : add32 s.committed s.objectSize = s.image.size) :
      Effect cfg s { commitObject s with failed := true }
        [.write (s.data.take s.objectSize) true, .finish false]
  | packetCommand {inp : List Byte} {cnt : Nat} (hf : s.failed = false)
      (hi : s.initialized = false) (hlen : s.commandOffset + inp.length ≤ s.commandSize) :
      Effect cfg s { fillCommand s inp with prnCount := cnt } []
  | packetData {inp : List Byte} {cnt : Nat} (hf : s.failed = false)
      (hi : s.initialized = true) (he : s.executed = false)
      (hlen : s.objectOffset + inp.length ≤ s.objectSize) :
      Effect cfg s { fillObject s inp with prnCount := cnt } []

variable {cfg : Platform} {s : Session} {h : Hooks}

theorem Effect.refl : Effect cfg s s [] := .quiet s.selected s.prn s.prnCount

theorem create_effect (type : Byte) (n : Nat) :
    Effect cfg s (create s type n).1 (create s type n).2.2 := by
  unfold create
  split
  · exact .refl
  rename_i hfc
  simp only [Bool.or_eq_true, not_or, Bool.not_eq_true] at hfc
  obtain ⟨hf, hc⟩ := hfc
  split
  · split
    · exact .refl
    · exact .createCommand hf hc (by omega) (by omega)
  · split
    · exact .refl
    rename_i hi
    have hmin : (if sub32 s.image.size s.committed < objectMax then sub32 s.image.size s.committed
        else objectMax) = min (sub32 s.image.size s.committed) objectMax := by
      split <;> omega
    simp only [hmin]
    split
    · exact .refl
    · exact .createData hf hc (by simpa using hi) (by omega) (by omega)
  · exact .refl

theorem executeCommand_effect (hf : s.failed = false) :
    Effect cfg s (executeCommand cfg h s).1 (executeCommand cfg h s).2.2 := by
  unfold executeCommand
  split
  · exact .refl
  rename_i hi
  split
  · exact .refl
  split
  · exact .refl
  rename_i image hp
  split
  · exact .beginOk hf (by simpa using hi) (by omega) hp
  · exact .beginFail hf (by simpa using hi) (by omega) hp

theorem executeData_effect (hf : s.failed = false) :
    Effect cfg s (executeData h s).1 (executeData h s).2.2 := by
  unfold executeData
  split
  · exact .refl
  rename_i hi
  have hi : s.initialized = true := by simpa using hi
  split
  · exact .refl
  rename_i he
  have he : s.executed = false := by simpa using he
  split
  · exact .refl
  rename_i hoff
  rw [not_or, not_not] at hoff
  simp only
  split
  · exact .writeFail hf hi he (by omega) hoff.2
  split
  · rename_i heq
    split
    · exact .finishOk hf hi he (by omega) hoff.2 heq
    · exact .finishFail hf hi he (by omega) hoff.2 heq
  · rename_i hne
    exact .writeMore hf hi he (by omega) hoff.2 hne

theorem execute_effect : Effect cfg s (execute cfg h s).1 (execute cfg h s).2.2 := by
  unfold execute
  split
  · exact .refl
  rename_i hf
  have hf : s.failed = false := by simpa using hf
  split
  · exact executeCommand_effect hf
  · exact executeData_effect hf
  · exact .refl

/-- `calls` made the change from `s` to `s'`, perhaps with the activity timer fed last. -/
def Acts (cfg : Platform) (s s' : Session) (calls : List Call) : Prop :=
  ∃ c, Effect cfg s s' c ∧ (calls = c ∨ calls = c ++ [.activity])

theorem respond_acts {op : Byte} {extra : List Byte} {r : Session × Status × List Call}
    (hr : Effect cfg s r.1 r.2.2) :
    Acts cfg s (respond op extra r).1 (respond op extra r).2.2 := by
  refine ⟨r.2.2, hr, ?_⟩
  unfold respond
  simp only
  split
  · exact .inr rfl
  · exact .inl rfl

theorem secureDfuControl_acts (inp : List Byte) :
    Acts cfg s (secureDfuControl cfg h s inp).1 (secureDfuControl cfg h s inp).2.2 := by
  unfold secureDfuControl
  split
  · exact ⟨[], .refl, .inl rfl⟩
  split
  · split
    · exact respond_acts (create_effect _ _)
    · exact respond_acts .refl
  split
  · split
    · exact respond_acts (.quiet _ _ _)
    · exact respond_acts .refl
  split
  · split
    · split
      · exact respond_acts .refl
      split
      · exact respond_acts .refl
      · exact respond_acts .refl
    · exact respond_acts .refl
  split
  · split
    · split
      · exact respond_acts (.quiet _ _ _)
      · exact respond_acts .refl
    · exact respond_acts .refl
  split
  · split
    · exact respond_acts execute_effect
    · exact respond_acts .refl
  · exact respond_acts .refl

/-- A receipt only moves the packet counter. -/
theorem packetReceipt_acts (s1 : Session)
    (hs : ∀ cnt, Effect cfg s { s1 with prnCount := cnt } []) :
    Acts cfg s (packetReceipt s1).1 (packetReceipt s1).2.2 := by
  unfold packetReceipt
  split
  · exact ⟨[], hs s1.prnCount, .inr rfl⟩
  simp only
  split
  · exact ⟨[], hs 0, .inr rfl⟩
  · exact ⟨[], hs _, .inr rfl⟩

theorem secureDfuPacket_acts (inp : List Byte) :
    Acts cfg s (secureDfuPacket s inp).1 (secureDfuPacket s inp).2.2 := by
  unfold secureDfuPacket
  by_cases hcmd : s.selected = some .command
  · simp only [hcmd, if_true]
    split
    · exact ⟨[], .refl, .inl rfl⟩
    rename_i hok
    simp only [packetRefused, hcmd, if_true, Bool.or_eq_true, not_or, Bool.not_eq_true,
      decide_eq_true_eq] at hok
    obtain ⟨⟨⟨⟨⟨hf, -⟩, -⟩, hle⟩, hlen⟩, hi⟩ := hok
    have hfit : s.commandOffset + inp.length ≤ s.commandSize := by omega
    exact packetReceipt_acts _ fun cnt => .packetCommand hf hi hfit
  · simp only [hcmd, if_false]
    split
    · exact ⟨[], .refl, .inl rfl⟩
    rename_i hok
    simp only [packetRefused, hcmd, if_false, Bool.or_eq_true, not_or, Bool.not_eq_true,
      decide_eq_true_eq, Bool.not_eq_false'] at hok
    obtain ⟨⟨⟨⟨⟨hf, -⟩, -⟩, hle⟩, hlen⟩, hi, he⟩ := hok
    have hfit : s.objectOffset + inp.length ≤ s.objectSize := by omega
    exact packetReceipt_acts _ fun cnt => .packetData hf hi he hfit

end OtaFix.SecureDfu

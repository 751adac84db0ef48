import OtaFix.Pstorage.Delivery

/-!
# Every event is handled

`Kept env P`: each part of the event handler keeps `P`, and so does the handler as a whole.
With it, an event of a run ends as soon as the SoftDevice does not refuse for ever: every
command that goes wrong at once costs one of its answers.
-/

namespace OtaFix.Pstorage

open Lib

variable {env : Env} {s s' : State} {P : State → Prop}

/-! ## Properties of the parts -/

def lazyEraseFront (env : Env) (s : State) : Code × State :=
  lazyEraseCheckAndTrigger env s.pending.front.handle s.pending.front.size s.pending.front.offset s

def storeFront (env : Env) (s : State) : Code × State :=
  cmdQueueEnqueue env (s.pending.front.cmd s.pending.head) { s with processingPending := true }

/-- Nothing is queued and nothing holds the first packet back. -/
structure AtRest (s : State) : Prop where
  queue : s.queue.count = 0
  lazy : s.lazyEraseActive = false
  processing : s.processingPending = false
  pending : 0 < s.pending.count

/-- Every part keeps `P`. -/
structure Kept (env : Env) (P : State → Prop) : Prop where
  act : ∀ {s} n, ∀ a ∈ env.callback n, P s → P (act env s a)
  told : ∀ {s} l, P s → P { s with notified := l }
  ask : ∀ {s}, P s → 0 < s.queue.count → s.flashAccess = .idle → s.queue.front.opCode ≠ .invalid →
    P (asked env s.queue.front s)
  popDirect : ∀ {s}, P s → 0 < s.queue.count → P s.popCmd
  popFailed : ∀ {s}, P s → 0 < s.queue.count → s.queue.front.flag ≠ .none → P s.popCmd.cleared
  popErase : ∀ {s}, P s → 0 < s.queue.count → s.queue.front.flag = .lazyErase →
    P s.popCmd.pageErased
  popStore : ∀ {s}, P s → 0 < s.queue.count → s.queue.front.flag = .pendingStore →
    P { s.popCmd with processingPending := false }
  popPending : ∀ {s}, P s → P s.popPending
  erase : ∀ {s}, P s → AtRest s → P (lazyEraseFront env s).2 ∧
    ((lazyEraseFront env s).1 ≠ nrfSuccess → P (lazyEraseFront env s).2.cleared)
  store : ∀ {s}, P s → AtRest s → pageToErase s.dfu s.pending.front.handle.blockId
      s.pending.front.size s.pending.front.offset = none →
    P (storeFront env s).2 ∧ ((storeFront env s).1 ≠ nrfSuccess → P (storeFront env s).2.cleared)
  nextRound : ∀ {s}, P s → 0 < s.queue.count → ¬ Covers s.queue.front.size (s.roundVal + 1) →
    P s.nextRound

theorem cmdProcess_invalid (hpos : 0 < s.queue.count) (hop : s.queue.front.opCode = .invalid) :
    cmdProcess env s = (nrfErrorForbidden, s.released) := by
  unfold cmdProcess
  rw [if_neg (Nat.pos_iff_ne_zero.mp hpos)]
  dsimp only
  rw [hop]
  rfl

theorem cmdProcess_queue : (cmdProcess env s).2.queue = s.queue := by
  by_cases hpos : 0 < s.queue.count
  · by_cases hop : s.queue.front.opCode = .invalid
    · rw [cmdProcess_invalid hpos hop]
      rfl
    · rw [cmdProcess_eq hpos hop]
      rfl
  · rw [cmdProcess, if_pos (by omega)]

theorem cmdProcess_frame : Frame s (cmdProcess env s).2 := by
  by_cases hpos : 0 < s.queue.count
  · by_cases hop : s.queue.front.opCode = .invalid
    · rw [cmdProcess_invalid hpos hop]
      exact ⟨rfl, rfl, rfl, rfl, rfl, rfl, rfl⟩
    · rw [cmdProcess_eq hpos hop]
      exact frame_asked _
  · rw [cmdProcess, if_pos (by omega)]
    exact .refl s

theorem cmdQueueEnqueue_frame (cmd : Cmd) : Frame s (cmdQueueEnqueue env cmd s).2 := by
  have hpush : Frame s (cmdProcess env (s.pushCmd cmd)).2 :=
    (frame_pushCmd cmd).trans cmdProcess_frame
  unfold cmdQueueEnqueue
  split
  · split
    · dsimp only
      split
      · exact hpush
      · split
        · exact hpush.trans frame_dropCmd
        · exact hpush
    · exact frame_pushCmd cmd
  · exact .refl s

/-- No erase was queued: the store may go ahead. -/
theorem lazyErase_plain {handle : Handle} {size offset : Nat}
    (hok : (lazyEraseCheckAndTrigger env handle size offset s).1 = nrfSuccess)
    (hlazy : (lazyEraseCheckAndTrigger env handle size offset s).2.lazyEraseActive = false) :
    lazyEraseCheckAndTrigger env handle size offset s = (nrfSuccess, s) ∧
      pageToErase s.dfu handle.blockId size offset = none := by
  unfold lazyEraseCheckAndTrigger at hok hlazy ⊢
  cases hpage : pageToErase s.dfu handle.blockId size offset with
  | none => exact ⟨rfl, rfl⟩
  | some page =>
    rw [hpage] at hok hlazy
    dsimp only at hok hlazy
    have hf := (@cmdQueueEnqueue_frame env { s with lazyEraseActive := true, lazyErasePage := page }
      (eraseCmd ⟨handle.moduleId, add32 s.dfu.baseAddress (page * codePageSize % 2 ^ 32)⟩)).lazy
    split at hok
    · contradiction
    · rename_i hret
      rw [if_neg hret] at hlazy
      exact absurd (hlazy.symm.trans hf) (fun h => by cases h)

/-- The store of the first packet, once no erase stands before it. -/
def storeAfter (env : Env) (s s₁ : State) : Code × State :=
  cmdQueueEnqueue env (s.pending.front.cmd s₁.pending.head) { s₁ with processingPending := true }

theorem pending_atRest {dequeue : State → Option State} (h : AtRest s) :
    processPendingPackets env dequeue s =
      if (lazyEraseFront env s).1 ≠ nrfSuccess then
        dequeue (pendingPacketsAbort env (lazyEraseFront env s).1 (lazyEraseFront env s).2)
      else if (lazyEraseFront env s).2.lazyEraseActive then some (lazyEraseFront env s).2
      else if (storeAfter env s (lazyEraseFront env s).2).1 ≠ nrfSuccess then
        dequeue (pendingPacketsAbort env (storeAfter env s (lazyEraseFront env s).2).1
          (storeAfter env s (lazyEraseFront env s).2).2)
      else some (storeAfter env s (lazyEraseFront env s).2).2 := by
  have hgo : ¬ (s.processingPending ∨ s.lazyEraseActive ∨ 0 < s.queue.count) := by
    rw [h.processing, h.lazy, h.queue]
    simp
  have hpeek : pendingPacketPeek s = some s.pending.front := if_neg (Nat.pos_iff_ne_zero.mp h.pending)
  rw [processPendingPackets, if_neg hgo, hpeek]
  rfl

/-- What `process_pending_packets` does before it hands over to the queue. -/
theorem pending_cases {dequeue : State → Option State} :
    (processPendingPackets env dequeue s = some s ∧ ¬ AtRest s) ∨
    AtRest s ∧
    ((lazyEraseFront env s).1 ≠ nrfSuccess ∧ processPendingPackets env dequeue s =
        dequeue (pendingPacketsAbort env (lazyEraseFront env s).1 (lazyEraseFront env s).2) ∨
      (lazyEraseFront env s).1 = nrfSuccess ∧
        processPendingPackets env dequeue s = some (lazyEraseFront env s).2 ∨
      pageToErase s.dfu s.pending.front.handle.blockId s.pending.front.size
          s.pending.front.offset = none ∧
        ((storeFront env s).1 ≠ nrfSuccess ∧ processPendingPackets env dequeue s =
            dequeue (pendingPacketsAbort env (storeFront env s).1 (storeFront env s).2) ∨
          (storeFront env s).1 = nrfSuccess ∧
            processPendingPackets env dequeue s = some (storeFront env s).2)) := by
  by_cases hrest : AtRest s
  · refine .inr ⟨hrest, ?_⟩
    by_cases hret : (lazyEraseFront env s).1 = nrfSuccess
    · rw [pending_atRest hrest, if_neg (not_not_intro hret)]
      by_cases hactive : (lazyEraseFront env s).2.lazyEraseActive
      · exact .inr (.inl ⟨hret, if_pos hactive⟩)
      · have hlazy : (lazyEraseFront env s).2.lazyEraseActive = false := by simpa using hactive
        obtain ⟨heq, hpage⟩ := lazyErase_plain hret hlazy
        have hstore : storeAfter env s (lazyEraseFront env s).2 = storeFront env s := by
          rw [lazyEraseFront, heq]
          rfl
        refine .inr (.inr ⟨hpage, ?_⟩)
        rw [if_neg hactive, hstore]
        by_cases hret' : (storeFront env s).1 = nrfSuccess
        · exact .inr ⟨hret', if_neg (not_not_intro hret')⟩
        · exact .inl ⟨hret', if_pos hret'⟩
    · exact .inl ⟨hret, (pending_atRest hrest).trans (if_pos hret)⟩
  · refine .inl ⟨?_, hrest⟩
    unfold processPendingPackets
    split
    · rfl
    rename_i hbusy
    unfold pendingPacketPeek
    by_cases hp : s.pending.count = 0
    · rw [if_pos hp]
    · exact absurd ⟨by omega, by simpa using fun h => hbusy (.inr (.inl h)),
        by simpa using fun h => hbusy (.inl h), Nat.pos_of_ne_zero hp⟩ hrest

theorem lazyErase_dfu (handle : Handle) (size offset : Nat) :
    (lazyEraseCheckAndTrigger env handle size offset s).2.dfu = s.dfu := by
  unfold lazyEraseCheckAndTrigger
  split
  · rfl
  · rename_i page _
    have hf := (@cmdQueueEnqueue_frame env { s with lazyEraseActive := true, lazyErasePage := page }
      (eraseCmd ⟨handle.moduleId, add32 s.dfu.baseAddress (page * codePageSize % 2 ^ 32)⟩)).dfu
    dsimp only
    split <;> exact hf

namespace Kept

theorem appNotify (h : Kept env P) (result : Code) (n : Notice) (hs : P s) :
    P (appNotify env result n s) := by
  have hacts : ∀ (as : List Act) {s : State}, (∀ a ∈ as, ∃ n, a ∈ env.callback n) → P s →
      P (as.foldl (Pstorage.act env) s) := by
    intro as
    induction as with
    | nil => exact fun _ hs => hs
    | cons a as ih =>
      intro s has hs
      obtain ⟨n, ha⟩ := has a List.mem_cons_self
      exact ih (fun a ha => has a (List.mem_cons_of_mem _ ha)) (h.act n a ha hs)
  unfold Pstorage.appNotify
  split
  · exact hacts _ (fun a ha => ⟨_, ha⟩) (h.told _ hs)
  · exact hs

theorem abortLoop (h : Kept env P) (result : Code) (k : Nat) (hs : P s) :
    P (abortLoop env result k s) := by
  induction k generalizing s with
  | zero => exact hs
  | succ k ih =>
    rw [Pstorage.abortLoop]
    split
    · exact hs
    · refine ih (h.appNotify result _ ?_)
      unfold pendingPacketPop
      split
      · exact h.popPending hs
      · exact hs

theorem failHead (h : Kept env P) (result : Code) (hs : P s) (hpos : 0 < s.queue.count) :
    P (cmdQueueFailHead env result s) := by
  rw [cmdQueueFailHead, cmdQueueHeadPop]
  dsimp only
  split
  · exact h.abortLoop result _ (h.popFailed hs hpos (by assumption))
  · exact h.appNotify result _ (h.popDirect hs hpos)

theorem process (h : Kept env P) (hs : P s) (hpos : 0 < s.queue.count)
    (hidle : s.flashAccess = .idle) : P (cmdProcess env s).2 := by
  by_cases hop : s.queue.front.opCode = .invalid
  · have hsame : s.released = s := by rw [State.released, ← hidle]
    rw [cmdProcess_invalid hpos hop, hsame]
    exact hs
  · rw [cmdProcess_eq hpos hop]
    exact h.ask hs hpos hidle hop

theorem pending {dequeue : State → Option State} (h : Kept env P)
    (hd : ∀ {s s' : State}, P s → dequeue s = some s' → P s') (hs : P s)
    (hr : processPendingPackets env dequeue s = some s') : P s' := by
  obtain ⟨heq, -⟩ | ⟨hrest, hcase⟩ := @pending_cases env s dequeue
  · rw [heq] at hr
    cases hr
    exact hs
  obtain ⟨herase, heraseFailed⟩ := h.erase hs hrest
  obtain ⟨hret, heq⟩ | ⟨hret, heq⟩ | ⟨hpage, hstored⟩ := hcase
  · rw [heq] at hr
    exact hd (h.abortLoop _ _ (heraseFailed hret)) hr
  · rw [heq] at hr
    cases hr
    exact herase
  obtain ⟨hstore, hstoreFailed⟩ := h.store hs hrest hpage
  obtain ⟨hret, heq⟩ | ⟨hret, heq⟩ := hstored
  · rw [heq] at hr
    exact hd (h.abortLoop _ _ (hstoreFailed hret)) hr
  · rw [heq] at hr
    cases hr
    exact hstore

theorem dequeue (h : Kept env P) (fuel : Nat) : ∀ {s s' : State}, P s →
    cmdQueueDequeue env fuel s = some s' → P s' := by
  induction fuel with
  | zero => exact fun _ hr => by cases hr
  | succ fuel ih =>
    intro s s' hs hr
    rw [cmdQueueDequeue] at hr
    split at hr
    · rename_i hgo
      have hs' := h.process hs hgo.1 hgo.2
      have hpos : 0 < (cmdProcess env s).2.queue.count := by
        rw [cmdProcess_queue]
        exact hgo.1
      dsimp only at hr
      split at hr
      · cases hr
        exact hs'
      · exact ih (h.failHead _ hs' hpos) hr
    · split at hr
      · exact h.pending ih hs hr
      · cases hr
        exact hs

theorem finished (h : Kept env P) {fuel : Nat} (hs : P s) (hpos : 0 < s.queue.count)
    (hr : commandFinished env fuel s = some s') : P s' := by
  rw [commandFinished, cmdQueueHeadPop] at hr
  dsimp only at hr
  split at hr
  · exact h.pending (h.dequeue fuel) (h.popErase hs hpos (by assumption)) hr
  · have hpop := h.popStore hs hpos (by assumption)
    unfold pendingPacketPeek at hr
    by_cases hp : s.popCmd.pending.count = 0
    · rw [if_pos hp] at hr
      cases hr
      exact hpop
    · rw [if_neg hp, pendingPacketPop, if_pos (Nat.pos_of_ne_zero hp)] at hr
      cases hr
      exact h.appNotify _ _ (h.popPending hpop)
  · cases hr
    exact h.appNotify _ _ (h.popDirect hs hpos)

/-- The rule: what the parts keep, an event keeps. -/
theorem handler (h : Kept env P) {fuel : Nat} {e : SysEvt} (hs : P s) (hs' : P s.released)
    (hb : IdleWhenEmpty s) (hr : pstorageSysEventHandler env fuel e s = some s') : P s' := by
  have hpos : s.flashAccess ≠ .idle → 0 < s.queue.count :=
    fun hne => Nat.pos_of_ne_zero fun h0 => hne (hb h0).1
  unfold pstorageSysEventHandler at hr
  split at hr
  · cases hr
    exact hs
  · exact h.dequeue fuel hs' hr
  · cases hr
    exact hs
  · rename_i hflight
    obtain ⟨s₁, hround, hnext⟩ := Option.bind_eq_some_iff.mp hr
    have hpos : 0 < s.released.queue.count := hpos (by rw [hflight]; exact fun h => by cases h)
    have hs₁ : P s₁ := by
      unfold roundDone at hround
      split at hround
      -- the completed command is taken off, and with it its rounds
      · exact h.finished (s := s.released) hs' hpos hround
      · rename_i hcover
        cases hround
        exact h.nextRound hs' hpos hcover
    unfold processNext at hnext
    split at hnext
    · exact h.dequeue fuel hs₁ hnext
    · split at hnext
      · exact h.pending (h.dequeue fuel) hs₁ hnext
      · cases hnext
        exact hs₁
  · rename_i hflight
    exact h.dequeue fuel (h.failHead _ hs'
      (hpos (by rw [hflight]; exact fun h => by cases h))) hr

end Kept

/-! ## An event ends -/

section Ends

/-- Answer `N` of the SoftDevice is not a refusal. -/
def Grants (env : Env) (N : Nat) : Prop := env.sd N = nrfSuccess ∨ env.sd N = nrfErrorBusy

/-- The SoftDevice was asked `m` times at least, and not after its answer `N`. -/
structure Owing (m N : Nat) (s : State) : Prop where
  floor : m ≤ s.issued.length
  granted : s.issued.length ≤ N ∨ s.issued.length = N + 1 ∧ s.flashAccess ≠ .idle
  valid : ∀ c ∈ s.queue.toList, c.opCode ≠ .invalid

variable {m N : Nat}

theorem Grants.access (h : Grants env N) : accessAfter (env.sd N) ≠ .idle := by
  obtain h | h := h <;> rw [h]
  · rw [accessAfter_success]
    exact fun h => by cases h
  · rw [accessAfter_busy]
    exact fun h => by cases h

theorem asked_owing (hN : Grants env N) (hidle : s.flashAccess = .idle) (h : Owing m N s)
    (cmd : Cmd) : Owing (m + 1) N (asked env cmd s) := by
  have hle : s.issued.length ≤ N := h.granted.resolve_right fun h => h.2 hidle
  have hlen : (asked env cmd s).issued.length = s.issued.length + 1 := List.length_append
  refine ⟨by rw [hlen]; exact Nat.succ_le_succ h.floor, ?_, h.valid⟩
  obtain hlt | heq := Nat.lt_or_eq_of_le hle
  · exact .inl (by omega)
  · refine .inr ⟨by omega, ?_⟩
    rw [access_asked, heq]
    exact hN.access

theorem Owing.weaken (h : Owing (m + 1) N s) : Owing m N s :=
  ⟨Nat.le_of_succ_le h.floor, h.granted, h.valid⟩

theorem Owing.push (h : Owing m N s) {cmd : Cmd} (hop : cmd.opCode ≠ .invalid)
    (hlt : s.queue.count < 18) : Owing m N (s.pushCmd cmd) := by
  refine ⟨h.floor, h.granted, fun c hc => ?_⟩
  rw [State.pushCmd, Ring.toList_push hlt, List.mem_append, List.mem_singleton] at hc
  obtain hc | rfl := hc
  · exact h.valid c hc
  · exact hop

/-- An attempt to queue asks the SoftDevice only when it is idle, and a refusal costs an answer. -/
theorem enqueue_owing (hN : Grants env N) (h : Owing m N s) {cmd : Cmd}
    (hop : cmd.opCode ≠ .invalid) : Owing m N (cmdQueueEnqueue env cmd s).2 ∧
      (s.queue.count = 0 → (cmdQueueEnqueue env cmd s).1 ≠ nrfSuccess →
        Owing (m + 1) N (cmdQueueEnqueue env cmd s).2) := by
  by_cases hgo : s.queue.count = 0 ∧ s.flashAccess = .idle
  · have hlt : s.queue.count < 18 := by omega
    have hask := asked_owing (s := s.pushCmd cmd) hN hgo.2 (h.push hop hlt) cmd
    rw [cmdQueueEnqueue_first hop hgo.1 hgo.2]
    split
    · exact ⟨hask.weaken, fun _ _ => hask⟩
    split
    · have hdrop : Owing (m + 1) N (asked env cmd (s.pushCmd cmd)).dropCmd := by
        refine ⟨hask.floor, hask.granted, fun c hc => h.valid c ?_⟩
        rw [← Ring.toList_dropBack_push hlt cmd .init]
        exact hc
      exact ⟨hdrop.weaken, fun _ _ => hdrop⟩
    · exact ⟨hask.weaken, fun _ _ => hask⟩
  · unfold cmdQueueEnqueue
    by_cases hfull : s.queue.count = pstorageCmdQueueSize
    · rw [if_neg (not_not_intro hfull)]
      refine ⟨h, fun h0 _ => ?_⟩
      rw [h0] at hfull
      exact absurd hfull (by decide)
    · rw [if_pos hfull, if_neg hgo]
      have hle := s.queue.count_le
      have hlt : s.queue.count < 18 := by simp only [pstorageCmdQueueSize] at hfull; omega
      exact ⟨h.push hop hlt, fun _ h => absurd rfl h⟩

theorem Owing.pop (h : Owing m N s) (hpos : 0 < s.queue.count) : Owing m N s.popCmd := by
  refine ⟨h.floor, h.granted, fun c hc => h.valid c ?_⟩
  rw [popCmd_queue (Ring.toList_eq_front_cons hpos)] at hc
  rw [Ring.toList_eq_front_cons hpos]
  exact List.mem_cons_of_mem _ hc

theorem Owing.congr (h : Owing m N s) (hi : s'.issued = s.issued)
    (ha : s'.flashAccess = s.flashAccess) (hq : s'.queue = s.queue) : Owing m N s' :=
  ⟨hi ▸ h.floor, by rw [hi, ha]; exact h.granted, hq ▸ h.valid⟩

theorem lazyErase_owing (hN : Grants env N) (h : Owing m N s) (handle : Handle)
    (size offset : Nat) : Owing m N (lazyEraseCheckAndTrigger env handle size offset s).2 ∧
      (s.queue.count = 0 → (lazyEraseCheckAndTrigger env handle size offset s).1 ≠ nrfSuccess →
        Owing (m + 1) N (lazyEraseCheckAndTrigger env handle size offset s).2) := by
  unfold lazyEraseCheckAndTrigger
  split
  · exact ⟨h, fun _ hne => absurd rfl hne⟩
  · rename_i page _
    obtain ⟨he, hfail⟩ := @enqueue_owing env
      { s with lazyEraseActive := true, lazyErasePage := page } _ _ hN (h.congr rfl rfl rfl)
      (eraseCmd ⟨handle.moduleId, add32 s.dfu.baseAddress (page * codePageSize % 2 ^ 32)⟩)
      (fun h => by cases h)
    dsimp only
    split
    · rename_i hret
      exact ⟨he.congr rfl rfl rfl, fun h0 _ => (hfail h0 hret).congr rfl rfl rfl⟩
    · exact ⟨he, fun _ hne => absurd rfl hne⟩

theorem act_owing (hN : Grants env N) (h : Owing m N s) (a : Act) : Owing m N (act env s a) := by
  have hadd : ∀ {s : State} (dest src data offset), Owing m N s →
      Owing m N (pendingPacketAdd dest src data offset s).2 := by
    intro s dest src data offset h
    unfold pendingPacketAdd
    split <;> exact h.congr rfl rfl rfl
  have hcall : ∀ c : Call, Owing m N (callOf env c s).2 := by
    intro c
    cases c with
    | clear dest size =>
      rw [callOf, pstorageClear]
      split
      · exact h
      · exact (enqueue_owing hN h (fun h => by cases h)).1
    | store dest src data offset =>
      rw [callOf, pstorageStore]
      split
      · exact h
      split
      · exact hadd dest src data offset h
      have he := (lazyErase_owing hN h dest data.length offset).1
      dsimp only
      split
      · exact he
      split
      · exact hadd dest src data offset he
      · exact (enqueue_owing hN he (fun h => by cases h)).1
  cases a with
  | dfu change => exact h.congr rfl rfl rfl
  | call c => exact (hcall c).congr rfl rfl rfl

theorem storeFront_owing (hN : Grants env N) (h : Owing m N s) :
    Owing m N (storeFront env s).2 ∧ (s.queue.count = 0 → (storeFront env s).1 ≠ nrfSuccess →
      Owing (m + 1) N (storeFront env s).2) :=
  enqueue_owing (s := { s with processingPending := true }) hN (h.congr rfl rfl rfl)
    (fun h => by cases h)

theorem kept_owing (hN : Grants env N) : Kept env (Owing m N) where
  act _ a _ h := act_owing hN h a
  told _ h := h.congr rfl rfl rfl
  ask h _ hidle _ := (asked_owing hN hidle h _).weaken
  popDirect h hpos := h.pop hpos
  popFailed h hpos _ := (h.pop hpos).congr rfl rfl rfl
  popErase h hpos _ := (h.pop hpos).congr rfl rfl rfl
  popStore h hpos _ := (h.pop hpos).congr rfl rfl rfl
  popPending h := h.congr rfl rfl rfl
  erase h _ := ⟨(lazyErase_owing hN h _ _ _).1,
    fun _ => (lazyErase_owing hN h _ _ _).1.congr rfl rfl rfl⟩
  store h _ _ := ⟨(storeFront_owing hN h).1, fun _ => (storeFront_owing hN h).1.congr rfl rfl rfl⟩
  nextRound h _ _ := h.congr rfl rfl rfl

/-- Each refusal costs an answer of the SoftDevice, and answer `N` is none. -/
theorem pending_returns (hN : Grants env N) {dequeue : State → Option State} (h : Owing m N s)
    (hd : ∀ {s : State}, Owing (m + 1) N s → ∃ s', dequeue s = some s') :
    ∃ s', processPendingPackets env dequeue s = some s' := by
  obtain ⟨heq, -⟩ | ⟨hrest, hcase⟩ := @pending_cases env s dequeue
  · exact ⟨s, heq⟩
  have habort : ∀ {s : State} (result : Code), Owing (m + 1) N s →
      Owing (m + 1) N (pendingPacketsAbort env result s) :=
    fun result h => (kept_owing hN).abortLoop result _ (h.congr rfl rfl rfl)
  obtain ⟨hret, heq⟩ | ⟨-, heq⟩ | ⟨-, ⟨hret, heq⟩ | ⟨-, heq⟩⟩ := hcase
  · rw [heq]
    exact hd (habort _ ((lazyErase_owing hN h _ _ _).2 hrest.queue hret))
  · exact ⟨_, heq⟩
  · rw [heq]
    exact hd (habort _ ((storeFront_owing hN h).2 hrest.queue hret))
  · exact ⟨_, heq⟩

theorem dequeue_returns (hN : Grants env N) (fuel : Nat) : ∀ {m : Nat} {s : State}, Owing m N s →
    N + 2 ≤ fuel + m → ∃ s', cmdQueueDequeue env fuel s = some s' := by
  induction fuel with
  | zero =>
    intro m s h hfuel
    have hfloor := h.floor
    obtain hle | ⟨hlen, -⟩ := h.granted
    · omega
    · omega
  | succ fuel ih =>
    intro m s h hfuel
    rw [cmdQueueDequeue]
    split
    · rename_i hgo
      have hop : s.queue.front.opCode ≠ .invalid :=
        h.valid _ (by rw [Ring.toList_eq_front_cons hgo.1]; exact List.mem_cons_self)
      rw [cmdProcess_eq hgo.1 hop]
      dsimp only
      split
      · exact ⟨_, rfl⟩
      · exact ih ((kept_owing hN).failHead _ (asked_owing hN hgo.2 h _) hgo.1) (by omega)
    · split
      · exact pending_returns hN h fun h => ih h (by omega)
      · exact ⟨s, rfl⟩

theorem Phase.valid {direct : List Call} (h : Phase s direct) :
    ∀ c ∈ s.queue.toList, c.opCode ≠ .invalid := by
  have hcmds : ∀ c ∈ direct.map Call.cmd, c.opCode ≠ .invalid := by
    intro c hc
    obtain ⟨call, -, rfl⟩ := List.mem_map.mp hc
    exact call.opCode_cmd
  intro c hc
  cases h with
  | plain _ _ hq => exact hcmds c (hq ▸ hc)
  | erasing _ _ hq =>
    rw [hq, List.mem_append, List.mem_singleton] at hc
    obtain hc | rfl := hc
    · exact hcmds c hc
    · exact fun h => by cases h
  | storing _ _ _ hq =>
    rw [hq, List.mem_singleton] at hc
    rw [hc]
    exact fun h => by cases h

theorem finished_returns (hN : Grants env N) {fuel : Nat} (h : Owing m N s)
    (hpos : 0 < s.queue.count) (hfuel : N + 2 ≤ fuel + m) :
    ∃ s', commandFinished env fuel s = some s' := by
  rw [commandFinished, cmdQueueHeadPop]
  dsimp only
  split
  · exact pending_returns hN (@Owing.congr _ s.popCmd.pageErased _ _ (h.pop hpos) rfl rfl rfl)
      fun h => dequeue_returns hN fuel h (by omega)
  · split
    · exact ⟨_, rfl⟩
    · exact ⟨_, rfl⟩
  · exact ⟨_, rfl⟩

theorem handler_returns (hN : Grants env N) {fuel : Nat} (e : SysEvt) (hs : Owing m N s.released)
    (hb : IdleWhenEmpty s) (hfuel : N + 2 ≤ fuel + m) :
    ∃ s', pstorageSysEventHandler env fuel e s = some s' := by
  have hpos : s.flashAccess ≠ .idle → 0 < s.queue.count :=
    fun hne => Nat.pos_of_ne_zero fun h0 => hne (hb h0).1
  unfold pstorageSysEventHandler
  split
  · exact ⟨s, rfl⟩
  · exact dequeue_returns hN fuel hs hfuel
  · exact ⟨s, rfl⟩
  · rename_i hflight
    have hpos := hpos (by rw [hflight]; exact fun h => by cases h)
    have hround : ∃ s₁, roundDone env fuel s.released.nextRound = some s₁ ∧ Owing m N s₁ := by
      have hs' : Owing m N s.released.nextRound := hs.congr rfl rfl rfl
      unfold roundDone
      split
      · obtain ⟨s₁, hs₁⟩ := @finished_returns env _ _ _ hN fuel hs' hpos hfuel
        exact ⟨s₁, hs₁, (kept_owing hN).finished hs' hpos hs₁⟩
      · exact ⟨_, rfl, hs'⟩
    obtain ⟨s₁, heq, hs₁⟩ := hround
    rw [heq, Option.bind_some]
    unfold processNext
    split
    · exact dequeue_returns hN fuel hs₁ hfuel
    · split
      · exact pending_returns hN hs₁ fun h => dequeue_returns hN fuel h (by omega)
      · exact ⟨s₁, rfl⟩
  · rename_i hflight
    exact dequeue_returns hN fuel ((kept_owing hN).failHead _ hs
      (hpos (by rw [hflight]; exact fun h => by cases h))) hfuel

end Ends

/-! ## More depth changes nothing -/

theorem pending_mono {f g : State → Option State} (hfg : ∀ s s', f s = some s' → g s = some s')
    (h : processPendingPackets env f s = some s') : processPendingPackets env g s = some s' := by
  by_cases hrest : AtRest s
  · rw [pending_atRest hrest] at h ⊢
    split at h
    · rename_i hret
      rw [if_pos hret]
      exact hfg _ _ h
    rename_i hret
    rw [if_neg hret]
    split at h
    · rename_i hactive
      rw [if_pos hactive]
      exact h
    rename_i hactive
    rw [if_neg hactive]
    split at h
    · rename_i hret'
      rw [if_pos hret']
      exact hfg _ _ h
    · rename_i hret'
      rw [if_neg hret']
      exact h
  · obtain ⟨hf, -⟩ | ⟨h, -⟩ := @pending_cases env s f
    · obtain ⟨hg, -⟩ | ⟨h, -⟩ := @pending_cases env s g
      · rw [hg, ← hf]
        exact h
      · exact absurd h hrest
    · exact absurd h hrest

theorem dequeue_mono {fuel fuel' : Nat} (hle : fuel ≤ fuel') : ∀ {s s' : State},
    cmdQueueDequeue env fuel s = some s' → cmdQueueDequeue env fuel' s = some s' := by
  induction fuel generalizing fuel' with
  | zero => exact fun h => by cases h
  | succ fuel ih =>
    obtain ⟨k, rfl⟩ : ∃ k, fuel' = k + 1 := ⟨fuel' - 1, by omega⟩
    have hle : fuel ≤ k := by omega
    intro s s' h
    rw [cmdQueueDequeue] at h ⊢
    split at h
    · rename_i hgo
      rw [if_pos hgo]
      dsimp only at h ⊢
      split at h
      · rename_i hok
        rw [if_pos hok]
        exact h
      · rename_i hok
        rw [if_neg hok]
        exact ih hle h
    · rename_i hgo
      rw [if_neg hgo]
      split at h
      · rename_i hnext
        rw [if_pos hnext]
        exact pending_mono (fun _ _ => ih hle) h
      · rename_i hnext
        rw [if_neg hnext]
        exact h

theorem finished_mono {fuel fuel' : Nat} (hle : fuel ≤ fuel')
    (h : commandFinished env fuel s = some s') : commandFinished env fuel' s = some s' := by
  rw [commandFinished] at h ⊢
  dsimp only at h ⊢
  split at h
  · exact pending_mono (fun _ _ => dequeue_mono hle) h
  · exact h
  · exact h

theorem handler_mono {fuel fuel' : Nat} {e : SysEvt} (hle : fuel ≤ fuel')
    (h : pstorageSysEventHandler env fuel e s = some s') :
    pstorageSysEventHandler env fuel' e s = some s' := by
  unfold pstorageSysEventHandler at h ⊢
  split at h
  · exact h
  · exact dequeue_mono hle h
  · exact h
  · obtain ⟨s₁, hround, hnext⟩ := Option.bind_eq_some_iff.mp h
    refine Option.bind_eq_some_iff.mpr ⟨s₁, ?_, ?_⟩
    · unfold roundDone at hround ⊢
      split at hround
      · rename_i hcover
        rw [if_pos hcover]
        exact finished_mono hle hround
      · rename_i hcover
        rw [if_neg hcover]
        exact hround
    · unfold processNext at hnext ⊢
      split at hnext
      · rename_i hq
        rw [if_pos hq]
        exact dequeue_mono hle hnext
      · rename_i hq
        rw [if_neg hq]
        split at hnext
        · rename_i hp
          rw [if_pos hp]
          exact pending_mono (fun _ _ => dequeue_mono hle) hnext
        · rename_i hp
          rw [if_neg hp]
          exact hnext
  · exact dequeue_mono hle h

/-- An event ends in one and the same state for every depth that suffices, and a depth suffices
as soon as the SoftDevice does not refuse everything from now on. -/
theorem event_handled {es : List Event} (h : Reached env es s) {N : Nat} (hN : Grants env N)
    (hle : s.issued.length ≤ N) (e : SysEvt) :
    ∃ s', ∀ fuel, N + 2 ≤ fuel → handleEvent env s (.sys e fuel) = some s' := by
  obtain ⟨direct, done, hs, -⟩ := (reached_good h).1
  obtain ⟨s', hs'⟩ := @handler_returns env _ 0 _ hN (N + 2) e
    ⟨Nat.zero_le _, .inl hle, hs.phase.valid⟩ hs.empty (Nat.le_refl _)
  exact ⟨s', fun fuel hfuel => handler_mono hfuel hs'⟩

/-- The first of two stores is at the SoftDevice, and the second one waits. -/
def storeInFlight : State := (twoStores.take 4).foldl (step calm) pstorageInit

theorem event_handled_storeInFlight : storeInFlight.queue.count = 1 ∧
    storeInFlight.pending.count = 2 ∧
    ∃ s', (∀ fuel, 5 ≤ fuel → handleEvent calm storeInFlight (.sys .flashSuccess fuel) = some s') ∧
      s'.notified.length = 1 ∧ s'.pending.count = 1 := by
  have hreached : Reached calm (twoStores.take 4) storeInFlight :=
    .of_allowed (fun s e => (handleEvent calm s e).isSome) (fun _ _ h => h) (by decide)
  obtain ⟨s', hs'⟩ := event_handled hreached (N := 3) (.inl rfl) (by decide) .flashSuccess
  have hrun : (handleEvent calm storeInFlight (.sys .flashSuccess 5)).map
      (fun s => (s.notified.length, s.pending.count)) = some (1, 1) := by decide
  rw [hs' 5 (Nat.le_refl _), Option.map_some, Option.some.injEq, Prod.mk.injEq] at hrun
  exact ⟨by decide, by decide, s', hs', hrun⟩

end OtaFix.Pstorage

import OtaFix.Lib.Run
import OtaFix.Pstorage.Outcome

/-!
# Every accepted request is served and answered once

A request is settled by its callback. Along a run the settled requests and the outstanding ones
are together the accepted calls, in order; the callbacks are those of the settled requests; and
the SoftDevice began their rounds, one request after the other, all of them where the callback
reports success. When no request is at the SoftDevice, nothing is outstanding.
-/

namespace OtaFix.Pstorage

open Lib

variable {env : Env} {s s' : State}

/-! ## Callbacks -/

/-- Every accepted call is settled or outstanding, and the settled ones had their callback. -/
def Good (env : Env) (s : State) : Prop := ∃ direct done,
  Shape s direct ∧ Ledger env s (inProgress s) direct done done (accepted s)

/-- An accepted call without the log entry is one with it. -/
def State.answer (s : State) (c : Call) (answer : Code) : State :=
  { s with answers := s.answers ++ [(c, answer)] }

theorem accepted_answer (c : Call) (answer : Code) :
    accepted (s.answer c answer) = accepted s ++ if answer = nrfSuccess then [c] else [] := by
  rw [accepted, State.answer, List.filter_append, List.map_append]
  by_cases h : answer = nrfSuccess
  · rw [if_pos h, List.filter_cons_of_pos (by simpa using h)]
    rfl
  · rw [if_neg h, List.filter_cons_of_neg (by simpa using h)]
    rfl

theorem Phase.congr {direct : List Call} (h : Phase s direct) (hq : s'.queue = s.queue)
    (hp : s'.pending = s.pending) (hl : s'.lazyEraseActive = s.lazyEraseActive)
    (hproc : s'.processingPending = s.processingPending) : Phase s' direct := by
  cases h with
  | plain h1 h2 h3 h4 => exact .plain (hl.trans h1) (hproc.trans h2) (hq ▸ h3) (hp ▸ h4)
  | erasing h1 h2 h3 => exact .erasing (hl.trans h1) (hproc.trans h2) (hq ▸ h3)
  | storing h1 h2 h3 h4 =>
    exact .storing (hl.trans h1) (hproc.trans h2) (hp ▸ h3) (by rw [hq, hp]; exact h4)

theorem Shape.congr {direct : List Call} (h : Shape s direct) (hq : s'.queue = s.queue)
    (ha : s'.flashAccess = s.flashAccess) (hr : s'.roundVal = s.roundVal)
    (hp : s'.pending = s.pending) (hl : s'.lazyEraseActive = s.lazyEraseActive)
    (hproc : s'.processingPending = s.processingPending) : Shape s' direct := by
  refine ⟨h.phase.congr hq hp hl hproc, hp ▸ h.sized, ?_, ?_⟩
  · intro h0
    rw [ha, hr]
    exact h.empty (hq ▸ h0)
  · intro k hk hle
    rw [hq]
    exact h.rounds k hk (hr ▸ hle)

theorem Ledger.congr {n : Nat} {direct : List Call} {told done : List Settled} {calls : List Call}
    (h : Ledger env s n direct told done calls) (hp : s'.pending = s.pending)
    (hproc : s'.processingPending = s.processingPending)
    (hn : s'.notified = s.notified) (hi : s'.issued = s.issued) :
    Ledger env s' n direct told done calls := by
  refine ⟨h.sound, ?_, ?_, ?_⟩
  · rw [h.served, outstanding, outstanding, hp]
  · rw [hn, h.told]
  · have hbegun : begun s' n direct = begun s n direct := by
      cases direct with
      | nil => rw [begun, begun, hp, hproc]
      | cons c rest => rfl
    rw [started, hi, hbegun]
    exact h.starts

theorem act_moves (a : Act) {direct : List Call} (hs : Shape s direct) : ∃ direct',
    Shape (act env s a) direct' ∧ (Awake s → Awake (act env s a)) ∧ (Fed s → Fed (act env s a)) ∧
      ∀ told done, Ledger env s (inProgress s) direct told done (accepted s) →
        Ledger env (act env s a) (inProgress (act env s a)) direct' told done
          (accepted (act env s a)) := by
  cases a with
  | dfu change =>
    exact ⟨direct, hs.congr rfl rfl rfl rfl rfl rfl, id, id,
      fun _ _ hled => hled.congr rfl rfl rfl rfl⟩
  | call c =>
    obtain ⟨direct', hm⟩ := @callOf_moves env s c _ hs
    have hacc : accepted (act env s (.call c)) =
        accepted s ++ if (callOf env c s).1 = nrfSuccess then [c] else [] := by
      have h := accepted_answer (s := (callOf env c s).2) c (callOf env c s).1
      rw [show accepted (callOf env c s).2 = accepted s by rw [accepted, hm.answers]; rfl] at h
      exact h
    refine ⟨direct', hm.shape.congr rfl rfl rfl rfl rfl rfl, hm.awake, hm.fed,
      fun told done hled => ?_⟩
    rw [hacc]
    exact (hled.moves hm).congr rfl rfl rfl rfl

theorem act_good (a : Act) (h : Good env s) : Good env (act env s a) := by
  obtain ⟨direct, done, hs, hled⟩ := h
  obtain ⟨direct', hs', -, -, hled'⟩ := @act_moves env s a _ hs
  exact ⟨direct', done, hs', hled' done done hled⟩

theorem acts_good (as : List Act) (h : Good env s) : Good env (as.foldl (act env) s) := by
  induction as generalizing s with
  | nil => exact h
  | cons a as ih => exact ih (act_good a h)

/-- The callback of the request that was settled last. -/
theorem appNotify_good {d : Settled} {direct : List Call} {done : List Settled}
    (hs : Shape s direct)
    (h : Ledger env s (inProgress s) direct done (done ++ [d]) (accepted s)) :
    Good env (appNotify env d.result d.call.notice s) := by
  have hcb : callbacks env.modules (done ++ [d]) = callbacks env.modules done ++
      if d.call.notice.hasCallback env.modules then [(d.call.notice, d.result)] else [] := by
    rw [callbacks, List.filter_append, List.map_append]
    by_cases hd : d.call.notice.hasCallback env.modules
    · rw [if_pos hd, List.filter_cons_of_pos (by exact hd)]
      rfl
    · rw [if_neg hd, List.filter_cons_of_neg (by exact hd)]
      rfl
  unfold appNotify
  split
  · rename_i hd
    refine acts_good _ ⟨direct, done ++ [d], hs.congr rfl rfl rfl rfl rfl rfl, h.sound, h.served,
      ?_, h.starts⟩
    rw [hcb, if_pos hd, ← h.told]
  · rename_i hd
    refine ⟨direct, done ++ [d], hs, h.sound, h.served, ?_, h.starts⟩
    rw [hcb, if_neg hd, List.append_nil, ← h.told]

/-! ## Giving up buffered stores -/

/-- While packets are left to abort, every store joins behind them and every clear is refused. -/
structure Aborting (s : State) (packets : Nat) : Prop where
  lazy : s.lazyEraseActive = false
  processing : s.processingPending = false
  queue : s.queue.count = 0
  left : packets ≤ s.pending.count

theorem Aborting.add {k : Nat} (h : Aborting s k) (dest : Handle) (src : Nat) (data : List Byte)
    (offset : Nat) : Aborting (pendingPacketAdd dest src data offset s).2 k := by
  unfold pendingPacketAdd
  split
  · exact h
  · rename_i hroom
    have hlt : s.pending.count < 8 := by simp only [pendingPacketCount] at hroom; omega
    refine ⟨h.lazy, h.processing, h.queue, Nat.le_trans h.left ?_⟩
    change s.pending.count ≤ (s.pending.push _).count
    rw [Ring.count_push hlt]
    exact Nat.le_succ _

theorem Aborting.callOf {k : Nat} (h : Aborting s (k + 1)) (c : Call) :
    Aborting (callOf env c s).2 (k + 1) := by
  have hpos : 0 < s.pending.count := Nat.lt_of_lt_of_le (Nat.succ_pos k) h.left
  cases c with
  | clear dest size =>
    rw [Pstorage.callOf, pstorageClear, if_pos (.inr (.inr hpos))]
    exact h
  | store dest src data offset =>
    rw [Pstorage.callOf, pstorageStore]
    split
    · exact h
    · rw [if_pos (.inr (.inr hpos))]
      exact h.add dest src data offset

theorem Aborting.act {k : Nat} (h : Aborting s (k + 1)) (a : Act) :
    Aborting (act env s a) (k + 1) := by
  cases a with
  | dfu change => exact ⟨h.lazy, h.processing, h.queue, h.left⟩
  | call c =>
    have h' := @Aborting.callOf env _ _ h c
    exact ⟨h'.lazy, h'.processing, h'.queue, h'.left⟩

theorem Aborting.appNotify {k : Nat} (h : Aborting s (k + 1)) (result : Code) (n : Notice) :
    Aborting (appNotify env result n s) (k + 1) := by
  have hacts : ∀ (as : List Act) {s : State}, Aborting s (k + 1) →
      Aborting (as.foldl (Pstorage.act env) s) (k + 1) := by
    intro as
    induction as with
    | nil => exact id
    | cons a as ih => exact fun h => ih (h.act a)
  unfold Pstorage.appNotify
  split
  · exact hacts _ ⟨h.lazy, h.processing, h.queue, h.left⟩
  · exact h

/-- The rounds that were begun of the first packet. -/
def firstRounds (n : Nat) : List Pending → List FlashOp
  | [] => []
  | p :: _ => (List.range n).map p.call.op

/-- The ledger when no command waits. -/
structure Buffered (env : Env) (s : State) (n : Nat) (done : List Settled) : Prop where
  sized : ∀ p ∈ s.pending.toList, p.size = p.data.length
  idle : s.flashAccess = .idle
  round : s.roundVal = 0
  sound : ∀ d ∈ done, d.result = nrfSuccess → Whole d.call.size d.rounds
  served : accepted s = done.map Settled.call ++ s.pending.toList.map Pending.call
  told : s.notified = callbacks env.modules done
  starts : started s = (done.map Settled.ops).flatten ++ firstRounds n s.pending.toList

theorem Shape.ofEmpty (hlazy : s.lazyEraseActive = false) (hproc : s.processingPending = false)
    (hq : s.queue.count = 0) (hidle : s.flashAccess = .idle) (hround : s.roundVal = 0)
    (hsized : ∀ p ∈ s.pending.toList, p.size = p.data.length) : Shape s [] := by
  refine ⟨.plain hlazy hproc (Ring.toList_eq_nil.mpr hq) (.inl rfl), hsized,
    fun _ => ⟨hidle, hround⟩, fun k hk hle => ?_⟩
  omega

theorem Buffered.good {done : List Settled} (h : Buffered env s 0 done)
    (hlazy : s.lazyEraseActive = false) (hproc : s.processingPending = false)
    (hq : s.queue.count = 0) : Good env s := by
  refine ⟨[], done, .ofEmpty hlazy hproc hq h.idle h.round h.sized, h.sound, h.served, h.told, ?_⟩
  rw [h.starts, begun_nil hproc]
  cases s.pending.toList <;> rfl

theorem Good.buffered (h : Good env s) (hlazy : s.lazyEraseActive = false)
    (hproc : s.processingPending = false) (hq : s.queue.count = 0) : ∃ done, Buffered env s 0 done := by
  obtain ⟨direct, done, hs, hled⟩ := h
  obtain ⟨hidle, hround⟩ := hs.empty hq
  have hnil : direct = [] := by
    have hd := (hs.phase.plain_iff hlazy hproc).1
    rw [Ring.toList_eq_nil.mpr hq] at hd
    exact List.map_eq_nil_iff.mp hd.symm
  subst hnil
  refine ⟨done, hs.sized, hidle, hround, hled.sound, hled.served, hled.told, ?_⟩
  rw [hled.starts, begun_nil hproc]
  cases s.pending.toList <;> rfl

theorem Pending.notice_call {p : Pending} (h : p.size = p.data.length) :
    p.notice = p.call.notice := by rw [Pending.notice, h]; rfl

/-- Every packet that was buffered when the abort began is settled with `result`. -/
theorem abortLoop_good {result : Code} (hresult : result ≠ nrfSuccess) :
    ∀ (k : Nat) {s : State} {n : Nat} {done : List Settled}, Aborting s k → Buffered env s n done →
      (k = 0 → n = 0) → Good env (abortLoop env result k s) := by
  intro k
  induction k with
  | zero =>
    intro s n done ha hb hn
    rw [hn rfl] at hb
    exact hb.good ha.lazy ha.processing ha.queue
  | succ k ih =>
    intro s n done ha hb _
    have hpos : 0 < s.pending.count := Nat.lt_of_lt_of_le (Nat.succ_pos k) ha.left
    have hlist := Ring.toList_eq_front_cons hpos
    have hpeek : pendingPacketPeek s = some s.pending.front := if_neg (by omega)
    have hpop : pendingPacketPop s = s.popPending := if_pos hpos
    have hcount : s.pending.pop.count = s.pending.count - 1 := Ring.count_pop _
    have hleft : k ≤ s.pending.pop.count := by
      have := ha.left
      omega
    have hsize : s.pending.front.size = s.pending.front.data.length :=
      hb.sized _ (by rw [hlist]; exact List.mem_cons_self)
    have hsized : ∀ p ∈ s.pending.pop.toList, p.size = p.data.length :=
      fun p hp => hb.sized p (by rw [hlist]; exact List.mem_cons_of_mem _ hp)
    rw [abortLoop, hpeek, hpop]
    dsimp only
    rw [Pending.notice_call hsize]
    have hgood : Good env (appNotify env result s.pending.front.call.notice
        s.popPending) := by
      refine @appNotify_good env _ ⟨s.pending.front.call, result, n⟩ [] done
        (.ofEmpty ha.lazy ha.processing ha.queue hb.idle hb.round hsized) ⟨?_, ?_, hb.told, ?_⟩
      · intro d hd hok
        rw [List.mem_append, List.mem_singleton] at hd
        obtain hd | rfl := hd
        · exact hb.sound d hd hok
        · exact absurd hok hresult
      · change accepted s = _
        rw [hb.served, hlist, List.map_cons, List.map_append, List.append_assoc]
        rfl
      · change started s = _
        rw [hb.starts, hlist, begun_nil (s := s.popPending) ha.processing, List.map_append,
          List.flatten_append, List.append_nil]
        exact congrArg _ (List.append_nil _).symm
    cases k with
    | zero => exact hgood
    | succ k =>
      have ha' : Aborting (appNotify env result s.pending.front.call.notice
          s.popPending) (k + 1) :=
        Aborting.appNotify (s := s.popPending) ⟨ha.lazy, ha.processing, ha.queue, hleft⟩ _ _
      obtain ⟨done', hb'⟩ := hgood.buffered ha'.lazy ha'.processing ha'.queue
      exact ih ha' hb' fun h => absurd h (Nat.succ_ne_zero k)

/-- The state of `pending_packets_abort` as its loop begins. -/
def State.cleared (s : State) : State :=
  { s with lazyEraseActive := false, lazyErasePage := 0, processingPending := false }

theorem pendingPacketsAbort_good {result : Code} (hresult : result ≠ nrfSuccess) {n : Nat}
    {done : List Settled} (hq : s.queue.count = 0) (h : Buffered env s.cleared n done) :
    Good env (pendingPacketsAbort env result s) := by
  by_cases hp : s.pending.count = 0
  · have hnil : s.cleared.pending.toList = [] := Ring.toList_eq_nil.mpr hp
    have h0 : Buffered env s.cleared 0 done := by
      refine ⟨h.sized, h.idle, h.round, h.sound, h.served, h.told, ?_⟩
      rw [h.starts, hnil]
      rfl
    exact abortLoop_good hresult _ ⟨rfl, rfl, hq, Nat.le_refl _⟩ h0 fun _ => rfl
  · exact abortLoop_good hresult _ ⟨rfl, rfl, hq, Nat.le_refl _⟩ h fun h => absurd h hp

/-- The abort with nothing of the buffer begun. -/
theorem pendingPacketsAbort_ofGood {result : Code} (hresult : result ≠ nrfSuccess)
    (h : Good env { s with processingPending := false }) (hlazy : s.lazyEraseActive = false)
    (hq : s.queue.count = 0) : Good env (pendingPacketsAbort env result s) := by
  obtain ⟨done, hb⟩ := h.buffered hlazy rfl hq
  exact pendingPacketsAbort_good hresult hq
    ⟨hb.sized, hb.idle, hb.round, hb.sound, hb.served, hb.told, hb.starts⟩

/-! ## The head is over -/

theorem popCmd_queue {cmd : Cmd} {l : List Cmd} (h : s.queue.toList = cmd :: l) :
    s.popCmd.queue.toList = l := by
  have hpos : 0 < s.queue.count := by
    rw [← Ring.toList_length, h]
    exact Nat.succ_pos _
  refine (Ring.toList_pop_setFront hpos Cmd.init).trans ?_
  rw [Ring.toList_eq_front_cons hpos] at h
  exact (List.cons.inj h).2

/-- The first of the calls that wait in the queue itself leaves it. -/
theorem Shape.popDirect {c : Call} {rest : List Call} (hs : Shape s (c :: rest))
    (hidle : s.flashAccess = .idle) : Shape s.popCmd rest ∧ s.queue.front = c.cmd := by
  have hlater : ∀ k, 0 < k → k ≤ s.popCmd.roundVal → ¬ Covers s.popCmd.queue.front.size k := by
    intro k hk hle
    exact absurd hk (Nat.not_lt.mpr hle)
  cases hs.phase with
  | plain hl hp hq hd =>
    have hd' : s.pending.count = 0 := hd.resolve_left (List.cons_ne_nil _ _)
    exact ⟨⟨.plain hl hp (popCmd_queue hq) (.inr hd'), hs.sized, fun _ => ⟨hidle, rfl⟩, hlater⟩,
      Ring.front_eq hq⟩
  | erasing hl hp hq =>
    exact ⟨⟨.erasing hl hp (popCmd_queue hq), hs.sized, fun _ => ⟨hidle, rfl⟩, hlater⟩,
      Ring.front_eq hq⟩

theorem Ledger.popDirect {c : Call} {rest : List Call} {n : Nat} {done : List Settled}
    {result : Code} {calls : List Call} (h : Ledger env s n (c :: rest) done done calls)
    (hsound : result = nrfSuccess → Whole c.size n) :
    Ledger env s.popCmd 0 rest done (done ++ [⟨c, result, n⟩]) calls := by
  refine ⟨?_, ?_, h.told, ?_⟩
  · intro d hd hok
    rw [List.mem_append, List.mem_singleton] at hd
    obtain hd | rfl := hd
    · exact h.sound d hd hok
    · exact hsound hok
  · rw [h.served, List.map_append, List.append_assoc]
    rfl
  · have hnone : begun s.popCmd 0 rest = [] := by
      cases rest with
      | nil => exact ite_self _
      | cons c rest => rfl
    change started s = _
    rw [h.starts, hnone, List.map_append, List.flatten_append, List.append_nil]
    exact congrArg _ (List.append_nil _).symm

theorem appNotify_popDirect {c : Call} {rest : List Call} {n : Nat} {done : List Settled}
    {result : Code} (hs : Shape s (c :: rest)) (hidle : s.flashAccess = .idle)
    (h : Ledger env s n (c :: rest) done done (accepted s))
    (hsound : result = nrfSuccess → Whole c.size n) :
    Good env (appNotify env result s.queue.front.notice s.popCmd) := by
  obtain ⟨hs', hfront⟩ := hs.popDirect hidle
  have hin : inProgress s.popCmd = 0 := by
    rw [inProgress, show s.popCmd.flashAccess = .idle from hidle]
    rfl
  rw [hfront, Call.notice_cmd]
  refine @appNotify_good env _ ⟨c, result, n⟩ _ done hs' ?_
  rw [hin]
  exact h.popDirect hsound

/-- A failed head is settled with `result`; a failed command of the buffer settles the buffer. -/
theorem cmdQueueFailHead_good {result : Code} (hresult : result ≠ nrfSuccess) {n : Nat}
    {direct : List Call} {done : List Settled} (hs : Shape s direct)
    (hpos : 0 < s.queue.count) (hidle : s.flashAccess = .idle)
    (h : Ledger env s n direct done done (accepted s)) : Good env (cmdQueueFailHead env result s) := by
  cases direct with
  | cons c rest =>
    have hflag : s.queue.front.flag = .none := by
      rw [(hs.popDirect hidle).2]
      exact c.flag_cmd
    rw [cmdQueueFailHead, cmdQueueHeadPop]
    dsimp only
    rw [if_neg (not_not_intro hflag)]
    exact appNotify_popDirect hs hidle h fun hok => absurd hok hresult
  | nil =>
    have habort : ∀ {cmd : Cmd} {m : Nat}, s.queue.toList = [cmd] → cmd.flag ≠ .none →
        begun s n [] = firstRounds m s.pending.toList → Good env (cmdQueueFailHead env result s) := by
      intro cmd m hq hflag hbegun
      rw [cmdQueueFailHead, cmdQueueHeadPop]
      dsimp only
      rw [Ring.front_eq hq, if_pos hflag]
      refine @pendingPacketsAbort_good env _ _ hresult m done
        (Ring.toList_eq_nil.mp (popCmd_queue hq)) ⟨hs.sized, hidle, rfl, h.sound, h.served, h.told, ?_⟩
      exact h.starts.trans (congrArg _ hbegun)
    cases hs.phase with
    | plain hl hp hq =>
      rw [List.map_nil, Ring.toList_eq_nil] at hq
      omega
    | erasing hl hp hq =>
      refine habort hq (fun h => by cases h) (m := 0) ?_
      rw [begun_nil hp]
      cases s.pending.toList <;> rfl
    | storing hl hp hpend hq =>
      refine habort hq (fun h => by cases h) (m := n) ?_
      rw [begun, if_pos hp, Ring.toList_eq_front_cons hpend]
      rfl

/-! ## Advancing the queue -/

/-- The queue is at rest only with nothing left to do. -/
def Drained (s : State) : Prop := Awake s ∧ Fed s

theorem lazyErase_failed {handle : Handle} {size offset : Nat}
    (h : (lazyEraseCheckAndTrigger env handle size offset s).1 ≠ nrfSuccess) :
    (lazyEraseCheckAndTrigger env handle size offset s).2.lazyEraseActive = false := by
  unfold lazyEraseCheckAndTrigger at h ⊢
  split
  · rename_i hpage
    rw [hpage] at h
    exact absurd rfl h
  · rename_i hpage
    rw [hpage] at h
    dsimp only at h ⊢
    split
    · rfl
    · rename_i hok
      rw [if_neg hok] at h
      exact absurd rfl h

theorem Phase.fed {direct : List Call} (h : Phase s direct)
    (hwait : s.lazyEraseActive = true ∨ s.processingPending = true) : s.queue.count ≠ 0 := by
  cases h with
  | plain hl hp =>
    rw [hl, hp] at hwait
    simp at hwait
  | erasing _ _ hq => exact count_ne_zero_of_toList hq
  | storing _ _ _ hq => exact count_ne_zero_of_toList (l := []) hq

theorem processPendingPackets_good {dequeue : State → Option State}
    (hd : ∀ {s s' : State}, Good env s → dequeue s = some s' → Good env s' ∧ Drained s') (h : Good env s)
    (hr : processPendingPackets env dequeue s = some s') :
    Good env s' ∧ (s.queue.count = 0 → Drained s') := by
  obtain ⟨direct, done, hs, hled⟩ := h
  unfold processPendingPackets at hr
  split at hr
  · rename_i hbusy
    cases hr
    refine ⟨⟨direct, done, hs, hled⟩, fun hq => ?_⟩
    obtain hp | hl | hc := hbusy
    · exact absurd hq (hs.phase.fed (.inr hp))
    · exact absurd hq (hs.phase.fed (.inl hl))
    · omega
  rename_i hbusy
  have hproc : s.processingPending = false := by simpa using fun h => hbusy (.inl h)
  have hlazy : s.lazyEraseActive = false := by simpa using fun h => hbusy (.inr (.inl h))
  have hq : s.queue.count = 0 := by omega
  have hawake : Awake s := fun h => absurd hq h
  have hnil : direct = [] := by
    have hd := (hs.phase.plain_iff hlazy hproc).1
    rw [Ring.toList_eq_nil.mpr hq] at hd
    exact List.map_eq_nil_iff.mp hd.symm
  subst hnil
  unfold pendingPacketPeek at hr
  by_cases hp : s.pending.count = 0
  · rw [if_pos hp] at hr
    cases hr
    exact ⟨⟨[], done, hs, hled⟩, fun _ => ⟨hawake, fun h => absurd hp h⟩⟩
  rw [if_neg hp] at hr
  dsimp only at hr
  have herase := @lazyErase_moves env _ s.pending.front.handle s.pending.front.size
    s.pending.front.offset _ hs hlazy hproc
  have hfailed := @lazyErase_failed env s s.pending.front.handle s.pending.front.size
    s.pending.front.offset
  obtain ⟨hpend, hproc'⟩ := @lazyErase_keeps env _ s.pending.front.handle
    s.pending.front.size s.pending.front.offset hs.empty
  generalize lazyEraseCheckAndTrigger env s.pending.front.handle s.pending.front.size
    s.pending.front.offset s = r at hr herase hfailed hpend hproc'
  obtain ⟨ret, s₁⟩ := r
  dsimp only at hr herase hfailed hpend hproc'
  rw [hproc] at hproc'
  have hled₁ := hled.moves_nil herase
  split at hr
  · rename_i hret
    have hlazy₁ := hfailed hret
    have hq₁ : s₁.queue.count = 0 :=
      Ring.toList_eq_nil.mp (herase.shape.phase.plain_iff hlazy₁ hproc').1
    have hgood : Good env { s₁ with processingPending := false } :=
      ⟨[], done, herase.shape.congr rfl rfl rfl rfl rfl hproc'.symm,
        hled₁.congr rfl hproc'.symm rfl rfl⟩
    obtain ⟨hg, hdr⟩ := hd (pendingPacketsAbort_ofGood hret hgood hlazy₁ hq₁) hr
    exact ⟨hg, fun _ => hdr⟩
  split at hr
  · rename_i hactive
    cases hr
    exact ⟨⟨[], done, herase.shape, hled₁⟩, fun _ => ⟨herase.awake hawake,
      fun _ => herase.shape.phase.fed (.inl hactive)⟩⟩
  rename_i hactive
  have hlazy₁ : s₁.lazyEraseActive = false := by simpa using hactive
  have hq₁ : s₁.queue.count = 0 :=
    Ring.toList_eq_nil.mp (herase.shape.phase.plain_iff hlazy₁ hproc').1
  have henq := @enqueued env { s₁ with processingPending := true } herase.shape.empty
    (s.pending.front.cmd s₁.pending.head) (fun h => by cases h)
  generalize hr' : cmdQueueEnqueue env (s.pending.front.cmd s₁.pending.head)
    { s₁ with processingPending := true } = r at henq
  have hr'' : cmdQueueEnqueue env ⟨.store, .pendingStore, s.pending.front.size,
    s.pending.front.offset, s.pending.front.handle, .slot s₁.pending.head⟩
    { s₁ with processingPending := true } = r := hr'
  rw [hr''] at hr
  obtain ⟨ret, s₂⟩ := r
  dsimp only at hr henq
  rw [← hpend] at henq
  have hawake₂ : Awake s₂ := henq.awake fun h => absurd hq₁ h
  have hlazy₂ : s₂.lazyEraseActive = false := henq.frame.lazy.trans hlazy₁
  obtain ⟨hok, hno⟩ := Moves.ofPending herase.shape hlazy₁ hproc' (by rw [hpend]; omega) henq
  split at hr
  · rename_i hret
    have hm := hno hret
    have hgood : Good env { s₂ with processingPending := false } :=
      ⟨[], done, hm.shape, hled₁.moves_nil hm⟩
    have hq₂ : s₂.queue.count = 0 := Ring.toList_eq_nil.mp (hm.shape.phase.plain_iff hlazy₂ rfl).1
    obtain ⟨hg, hdr⟩ := hd (pendingPacketsAbort_ofGood hret hgood hlazy₂ hq₂) hr
    exact ⟨hg, fun _ => hdr⟩
  · rename_i hret
    have hm := hok (not_not.mp hret)
    cases hr
    exact ⟨⟨[], done, hm.shape, hled₁.moves_nil hm⟩, fun _ => ⟨hawake₂,
      fun _ => hm.shape.phase.fed (.inr henq.frame.processing)⟩⟩

theorem cmdQueueDequeue_good (fuel : Nat) : ∀ {s s' : State}, Good env s →
    cmdQueueDequeue env fuel s = some s' → Good env s' ∧ Drained s' := by
  induction fuel with
  | zero => exact fun _ hr => by cases hr
  | succ fuel ih =>
    intro s s' h hr
    rw [cmdQueueDequeue] at hr
    split at hr
    · rename_i hgo
      obtain ⟨hpos, hidle⟩ := hgo
      obtain ⟨direct, done, hs, hled⟩ := h
      have hm := @Moves.ofProcess env _ _ hs hpos hidle
      have hled' := hled.moves_nil hm
      rw [cmdProcess_eq hpos (hs.front_opCode hpos)] at hr
      dsimp only at hr
      split at hr
      · rename_i hanswer
        cases hr
        refine ⟨⟨direct, done, hm.shape, hled'⟩, fun _ => ?_, fun _ => Nat.pos_iff_ne_zero.mp hpos⟩
        rw [access_asked]
        obtain ha | ha := hanswer <;> rw [ha]
        · rw [accessAfter_success]
          exact fun h => by cases h
        · rw [accessAfter_busy]
          exact fun h => by cases h
      · rename_i hanswer
        rw [not_or] at hanswer
        have hidle' : (asked env s.queue.front s).flashAccess = .idle :=
          accessAfter_refused hanswer.1 hanswer.2
        have hfail := @cmdQueueFailHead_good env _ _ hanswer.1 _ _ _ hm.shape hpos hidle' hled'
        exact ih hfail hr
    · rename_i hstop
      split at hr
      · rename_i hnext
        obtain ⟨hg, hdr⟩ := processPendingPackets_good ih h hr
        exact ⟨hg, hdr hnext.1⟩
      · rename_i hnext
        cases hr
        refine ⟨h, fun hc hidle => hstop ⟨Nat.pos_of_ne_zero hc, hidle⟩, fun hp hc => hnext ?_⟩
        obtain ⟨direct, done, hs, hled⟩ := h
        have hproc : s.processingPending = false := by
          simpa using fun hp => hs.phase.fed (.inr hp) hc
        have hlazy : s.lazyEraseActive = false := by
          simpa using fun hl => hs.phase.fed (.inl hl) hc
        exact ⟨hc, Nat.pos_of_ne_zero hp, by rw [hproc]; rfl, by rw [hlazy]; rfl⟩

theorem commandFinished_good {fuel n : Nat} {direct : List Call} {done : List Settled}
    (hs : Shape s direct) (hpos : 0 < s.queue.count) (hidle : s.flashAccess = .idle)
    (h : Ledger env s n direct done done (accepted s)) (hwhole : Whole s.queue.front.size n)
    (hr : commandFinished env fuel s = some s') : Good env s' := by
  rw [commandFinished, cmdQueueHeadPop] at hr
  dsimp only at hr
  cases direct with
  | cons c rest =>
    have hfront := (hs.popDirect hidle).2
    rw [show s.queue.front.flag = .none by rw [hfront]; exact c.flag_cmd] at hr
    cases hr
    refine appNotify_popDirect hs hidle h fun _ => ?_
    rw [← c.size_cmd, ← hfront]
    exact hwhole
  | nil =>
    cases hs.phase with
    | plain hl hp hq =>
      rw [List.map_nil, Ring.toList_eq_nil] at hq
      omega
    | erasing hl hp hq =>
      rw [Ring.front_eq hq] at hr
      refine (processPendingPackets_good (s := s.popCmd.pageErased) (cmdQueueDequeue_good fuel)
        ⟨[], done, ?_, ?_⟩ hr).1
      · exact .ofEmpty rfl hp (Ring.toList_eq_nil.mp (popCmd_queue hq)) hidle rfl hs.sized
      · refine ⟨h.sound, h.served, h.told, ?_⟩
        rw [begun_nil (s := s.popCmd.pageErased) hp]
        have hst := h.starts
        rw [begun_nil hp] at hst
        exact hst
    | storing hl hp hpend hq =>
      have hlist := Ring.toList_eq_front_cons hpend
      have hsize : s.pending.front.size = s.pending.front.data.length :=
        hs.sized _ (by rw [hlist]; exact List.mem_cons_self)
      have hpeek : pendingPacketPeek s.popCmd = some s.pending.front :=
        if_neg (Nat.pos_iff_ne_zero.mp hpend)
      have hpop : pendingPacketPop s.popCmd = s.popCmd.popPending := if_pos hpend
      rw [Ring.front_eq hq] at hr hwhole
      rw [show (s.pending.front.cmd s.pending.head).flag = .pendingStore from rfl] at hr
      dsimp only at hr
      rw [hpeek, hpop] at hr
      cases hr
      rw [Pending.notice_call hsize]
      refine @appNotify_good env _ ⟨s.pending.front.call, nrfSuccess, n⟩ [] done ?_ ⟨?_, ?_, h.told, ?_⟩
      · refine .ofEmpty hl rfl (Ring.toList_eq_nil.mp (popCmd_queue hq)) hidle rfl fun p hp => ?_
        exact hs.sized p (by rw [hlist]; exact List.mem_cons_of_mem _ hp)
      · intro d hd hok
        rw [List.mem_append, List.mem_singleton] at hd
        obtain hd | rfl := hd
        · exact h.sound d hd hok
        · rw [show s.pending.front.call.size = s.pending.front.size from hsize.symm]
          exact hwhole
      · change accepted s = _
        rw [h.served, outstanding, hlist, List.map_append, List.append_assoc]
        rfl
      · change started s = _
        rw [h.starts, begun, if_pos hp, List.map_append, List.flatten_append, List.append_assoc]
        exact congrArg _ ((List.append_nil _).trans (List.append_nil _)).symm

theorem released_good {direct : List Call} {told done : List Settled} {n : Nat}
    (hs : Shape s direct) (h : Ledger env s n direct told done (accepted s))
    (hne : s.flashAccess ≠ .idle) : Shape s.released direct ∧ 0 < s.queue.count ∧
      Ledger env s.released n direct told done (accepted s) := by
  have hpos : 0 < s.queue.count := Nat.pos_of_ne_zero fun h0 => hne (hs.empty h0).1
  exact ⟨⟨hs.phase.congr rfl rfl rfl rfl, hs.sized,
    fun h0 => absurd h0 (Nat.pos_iff_ne_zero.mp hpos), hs.rounds⟩, hpos, h.congr rfl rfl rfl rfl⟩

theorem roundDone_good {fuel : Nat} {direct : List Call} {done : List Settled}
    (hs : Shape s direct) (hpos : 0 < s.queue.count) (hidle : s.flashAccess = .idle)
    (h : Ledger env s (s.roundVal + 1) direct done done (accepted s))
    (hr : roundDone env fuel s.nextRound = some s') : Good env s' := by
  unfold roundDone at hr
  split at hr
  · rename_i hcover
    exact commandFinished_good (n := s.roundVal + 1) (s := s) hs hpos hidle h
      ⟨Nat.succ_pos _, hcover, fun k hk hlt => hs.rounds k hk (Nat.le_of_lt_succ hlt)⟩ hr
  · rename_i hcover
    cases hr
    have hin : inProgress s.nextRound = s.roundVal + 1 := by
      rw [inProgress, show s.nextRound.flashAccess = .idle from hidle]
      rfl
    refine ⟨direct, done, ⟨hs.phase.congr rfl rfl rfl rfl, hs.sized,
      fun h0 => absurd h0 (Nat.pos_iff_ne_zero.mp hpos), fun k hk hle => ?_⟩, ?_⟩
    · obtain hlt | heq := Nat.lt_or_eq_of_le hle
      · exact hs.rounds k hk (Nat.le_of_lt_succ hlt)
      · rw [heq]
        exact hcover
    · rw [hin]
      exact h.congr rfl rfl rfl rfl

theorem processNext_good {fuel : Nat} (h : Good env s) (hr : processNext env fuel s = some s') :
    Good env s' ∧ Drained s' := by
  unfold processNext at hr
  split at hr
  · exact cmdQueueDequeue_good fuel h hr
  rename_i hq
  have hq0 : s.queue.count = 0 := Nat.eq_zero_of_not_pos hq
  split at hr
  · obtain ⟨hg, hdr⟩ := processPendingPackets_good (cmdQueueDequeue_good fuel) h hr
    exact ⟨hg, hdr hq0⟩
  · rename_i hstop
    cases hr
    obtain ⟨direct, done, hs, hled⟩ := h
    refine ⟨⟨direct, done, hs, hled⟩, fun h0 => absurd hq0 h0, fun hp => absurd ?_ hstop⟩
    have hproc : s.processingPending = false := by
      simpa using fun hp => hs.phase.fed (.inr hp) hq0
    have hlazy : s.lazyEraseActive = false := by
      simpa using fun hl => hs.phase.fed (.inl hl) hq0
    exact ⟨Nat.pos_of_ne_zero hp, by rw [hproc]; rfl, by rw [hlazy]; rfl⟩

/-- After an event the queue is at rest only with nothing left to do. -/
theorem pstorageSysEventHandler_good {fuel : Nat} {e : SysEvt} (h : Good env s) (hdr : Drained s)
    (hr : pstorageSysEventHandler env fuel e s = some s') : Good env s' ∧ Drained s' := by
  obtain ⟨direct, done, hs, hled⟩ := h
  unfold pstorageSysEventHandler at hr
  split at hr
  · cases hr
    exact ⟨⟨direct, done, hs, hled⟩, hdr⟩
  · rename_i hwait
    obtain ⟨hs', hpos, hled'⟩ := released_good hs hled (by rw [hwait]; exact fun h => by cases h)
    have hin : inProgress s = s.roundVal := by rw [inProgress, hwait]; rfl
    rw [hin] at hled'
    exact cmdQueueDequeue_good fuel ⟨direct, done, hs', hled'⟩ hr
  · cases hr
    exact ⟨⟨direct, done, hs, hled⟩, hdr⟩
  all_goals
    rename_i hflight
    obtain ⟨hs', hpos, hled'⟩ := released_good hs hled (by rw [hflight]; exact fun h => by cases h)
    have hin : inProgress s = s.roundVal + 1 := by rw [inProgress, hflight]; rfl
    rw [hin] at hled'
  · obtain ⟨s₁, hround, hnext⟩ := Option.bind_eq_some_iff.mp hr
    exact processNext_good (roundDone_good hs' hpos rfl hled' hround) hnext
  · exact cmdQueueDequeue_good fuel (cmdQueueFailHead_good (fun h => by cases h) hs' hpos rfl hled') hr

/-! ## Runs -/

variable {es : List Event}

def step (env : Env) (s : State) (e : Event) : State := (handleEvent env s e).getD s

/-- The depth of the event suffices. -/
def Handled (env : Env) (s : State) (e : Event) : Prop := (handleEvent env s e).isSome

abbrev Reached (env : Env) : List Event → State → Prop :=
  Lib.Reach (step env) (Handled env) pstorageInit

theorem pstorageInit_good : Good env pstorageInit := by
  refine ⟨[], [], .ofEmpty rfl rfl rfl rfl rfl (fun p hp => ?_), fun d hd => ?_, rfl, rfl, rfl⟩
  · cases hp
  · cases hd

theorem step_good {e : Event} (h : Good env s ∧ Drained s) (hok : Handled env s e) :
    Good env (step env s e) ∧ Drained (step env s e) := by
  obtain ⟨hg, hdr⟩ := h
  obtain ⟨s', hs'⟩ := Option.isSome_iff_exists.mp hok
  rw [step, hs', Option.getD_some]
  cases e with
  | sys e fuel => exact pstorageSysEventHandler_good hg hdr hs'
  | act a =>
    cases hs'
    obtain ⟨direct, done, hs, hled⟩ := hg
    obtain ⟨direct', hs', hawake, hfed, hled'⟩ := @act_moves env s a _ hs
    exact ⟨⟨direct', done, hs', hled' done done hled⟩, hawake hdr.1, hfed hdr.2⟩

theorem reached_good (h : Reached env es s) : Good env s ∧ Drained s :=
  h.invariant ⟨pstorageInit_good, fun h => absurd rfl h, fun h => absurd rfl h⟩
    fun _ _ => step_good

/-- One module, a SoftDevice that takes everything, and callbacks that do nothing. -/
def calm : Env := ⟨1, fun _ => nrfSuccess, fun _ => []⟩

def twoPages : DfuPages := ⟨some fun _ => false, 2, 0x26000⟩

/-- Two stores into a page that is not erased yet. -/
def twoStores : List Event :=
  [.act (.dfu fun _ => twoPages),
    .act (.call (.store ⟨0, 0x26000⟩ 0x20000000 [1, 2, 3, 4] 0)),
    .act (.call (.store ⟨0, 0x26000⟩ 0x20000010 [5, 6, 7, 8] 4)),
    .sys .flashSuccess 3, .sys .flashSuccess 3, .sys .flashSuccess 3]

def afterTwoStores : State := twoStores.foldl (step calm) pstorageInit

theorem reached_afterTwoStores : Reached calm twoStores afterTwoStores :=
  .of_allowed (fun s e => (handleEvent calm s e).isSome) (fun _ _ h => h) (by decide)

/-- The owners that a list of calls has to answer. -/
def owed (modules : Nat) (calls : List Call) : List Notice :=
  (calls.map Call.notice).filter (Notice.hasCallback modules)

theorem owed_append (modules : Nat) (calls calls' : List Call) :
    owed modules (calls ++ calls') = owed modules calls ++ owed modules calls' := by
  rw [owed, List.map_append, List.filter_append]
  rfl

theorem callbacks_owed (modules : Nat) (done : List Settled) :
    (callbacks modules done).map Prod.fst = owed modules (done.map Settled.call) := by
  rw [callbacks, owed, List.map_map, List.map_map, List.filter_map]
  rfl

/-- Callbacks come in the order of the accepted calls, none twice and none for a refused one. -/
theorem callbacks_in_order (h : Reached env es s) :
    s.notified.map Prod.fst <+: owed env.modules (accepted s) := by
  obtain ⟨⟨direct, done, -, hled⟩, -⟩ := reached_good h
  rw [hled.told, callbacks_owed, hled.served, owed_append]
  exact List.prefix_append _ _

theorem callbacks_in_order_twoStores :
    afterTwoStores.notified.map Prod.fst <+: owed 1 (accepted afterTwoStores) :=
  callbacks_in_order reached_afterTwoStores

/-- With nothing at the SoftDevice no request waits, and every accepted one had its callback. -/
theorem rest_settled (h : Reached env es s) (hidle : s.flashAccess = .idle) :
    s.queue.count = 0 ∧ s.pending.count = 0 ∧
      s.notified.map Prod.fst = owed env.modules (accepted s) := by
  obtain ⟨⟨direct, done, hs, hled⟩, hawake, hfed⟩ := reached_good h
  have hq : s.queue.count = 0 := not_not.mp fun h => hawake h hidle
  have hp : s.pending.count = 0 := not_not.mp fun h => hfed h hq
  refine ⟨hq, hp, ?_⟩
  have hnil : direct = [] := by
    have hlazy : s.lazyEraseActive = false := by simpa using fun hl => hs.phase.fed (.inl hl) hq
    have hproc : s.processingPending = false := by simpa using fun hp => hs.phase.fed (.inr hp) hq
    have hd := (hs.phase.plain_iff hlazy hproc).1
    rw [Ring.toList_eq_nil.mpr hq] at hd
    exact List.map_eq_nil_iff.mp hd.symm
  rw [hled.told, callbacks_owed, hled.served, hnil, outstanding, Ring.toList_eq_nil.mpr hp,
    List.map_nil, List.append_nil, List.append_nil]

theorem rest_settled_twoStores : afterTwoStores.queue.count = 0 ∧ afterTwoStores.pending.count = 0 ∧
    afterTwoStores.notified.map Prod.fst = owed 1 (accepted afterTwoStores) :=
  rest_settled reached_afterTwoStores (by decide)

/-! ## What reaches the flash -/

/-- The rounds of a request of `size` bytes; an empty one takes a round too. -/
def pieces (size : Nat) : Nat := max 1 ((size + socMaxWriteSize - 1) / socMaxWriteSize)

/-- A request in pieces of the size that the SoftDevice takes at once. -/
def Call.plan : Call → List FlashOp
  | .store dest _ data offset => (List.range (pieces data.length)).map fun r =>
    .write (add32 dest.blockId (add32 offset (socMaxWriteSize * r)))
      ((data.drop (socMaxWriteSize * r)).take socMaxWriteSize)
  | .clear dest size => (List.range (pieces size)).map fun r =>
    .erase (add32 (dest.blockId / codePageSize) r)

def FlashOp.bytes : FlashOp → List Byte
  | .write _ data => data
  | .erase _ => []

/-- The rounds that cover a size stay below the wrap of `m_round_val * SOC_MAX_WRITE_SIZE`. -/
theorem Whole.size_le {size r : Nat} (h : Whole size r) : size ≤ 2 ^ 32 - socMaxWriteSize := by
  have hcover : size ≤ r * 4096 % 2 ^ 32 := h.2.1
  have hm : socMaxWriteSize = 4096 := rfl
  omega

theorem whole_pieces {size r : Nat} (h : Whole size r) : r = pieces size := by
  have hsize := h.size_le
  obtain ⟨hpos, hcover, hleast⟩ := h
  have hp : pieces size = max 1 ((size + 4095) / 4096) := rfl
  have hm : socMaxWriteSize = 4096 := rfl
  rw [hm] at hsize
  have hlt : pieces size * 4096 < 2 ^ 32 := by omega
  have hle : r ≤ pieces size := by
    by_contra hgt
    refine hleast (pieces size) (by omega) (by omega) ?_
    unfold Covers
    rw [hm, Nat.mod_eq_of_lt hlt]
    omega
  have hcover : size ≤ r * 4096 % 2 ^ 32 := hcover
  omega

theorem Call.op_plan {c : Call} {r : Nat} (hwords : 4 ∣ c.size) (h : Whole c.size r) :
    (List.range r).map c.op = c.plan := by
  have hr := whole_pieces h
  have hsize := h.size_le
  have hm : socMaxWriteSize = 4096 := rfl
  cases c with
  | clear dest size => rw [hr]; rfl
  | store dest src data offset =>
    rw [hr]
    refine List.map_congr_left fun k hk => ?_
    have hk : k < max 1 ((data.length + 4095) / 4096) := List.mem_range.mp hk
    have hsize : data.length ≤ 2 ^ 32 - 4096 := hsize
    have hwords : 4 ∣ data.length := hwords
    have hdone : k * 4096 % 2 ^ 32 = 4096 * k := by
      rw [Nat.mod_eq_of_lt (by omega), Nat.mul_comm]
    have hleft : sub32 data.length (4096 * k) = data.length - 4096 * k := by
      unfold sub32
      omega
    simp only [Call.op, hm, hdone, hleft]
    refine congrArg (FlashOp.write _) ?_
    split
    · rw [List.take_of_length_le (i := 4096) (by rw [List.length_drop]; omega),
        List.take_of_length_le (by rw [List.length_drop]; omega)]
    · rfl

/-- The pieces of a store put its bytes together again. -/
theorem Call.plan_bytes (dest : Handle) (src : Nat) (data : List Byte) (offset : Nat) :
    (Call.store dest src data offset).plan.flatMap FlashOp.bytes = data := by
  have hsplit : ∀ n, ((List.range n).map fun r =>
      FlashOp.write (add32 dest.blockId (add32 offset (socMaxWriteSize * r)))
        ((data.drop (socMaxWriteSize * r)).take socMaxWriteSize)).flatMap FlashOp.bytes =
      data.take (socMaxWriteSize * n) := by
    intro n
    induction n with
    | zero => rfl
    | succ n ih =>
      rw [List.range_succ, List.map_append, List.flatMap_append, ih, Nat.mul_succ, List.take_add]
      exact congrArg _ (List.append_nil _)
  have hcover : data.length ≤ socMaxWriteSize * pieces data.length := by
    have hp : pieces data.length = max 1 ((data.length + 4095) / 4096) := rfl
    have hm : socMaxWriteSize = 4096 := rfl
    rw [hm]
    omega
  exact (hsplit _).trans (List.take_of_length_le hcover)

/-- What the SoftDevice began for requests, in the order of the accepted calls: a beginning of
each, and the whole of each whose callback reported success. -/
theorem flash_in_order (h : Reached env es s) : ∃ (done : List Settled) (waiting : List Call)
    (n : Nat), accepted s = done.map Settled.call ++ waiting ∧
      s.notified = callbacks env.modules done ∧
      started s = (done.map Settled.ops).flatten ++
        (waiting.take 1).flatMap (fun c => (List.range n).map c.op) ∧
      ∀ d ∈ done, d.result = nrfSuccess → 4 ∣ d.call.size → d.ops = d.call.plan := by
  obtain ⟨⟨direct, done, hs, hled⟩, -⟩ := reached_good h
  have hsound : ∀ d ∈ done, d.result = nrfSuccess → 4 ∣ d.call.size → d.ops = d.call.plan :=
    fun d hd hok hwords => Call.op_plan hwords (hled.sound d hd hok)
  have hnone : ∀ l : List Call, (l.take 1).flatMap (fun c => (List.range 0).map c.op) = [] := by
    intro l
    cases l <;> rfl
  cases direct with
  | cons c rest =>
    refine ⟨done, _, inProgress s, hled.served, hled.told, ?_, hsound⟩
    rw [hled.starts]
    exact congrArg _ (List.append_nil _).symm
  | nil =>
    cases hproc : s.processingPending with
    | false =>
      refine ⟨done, _, 0, hled.served, hled.told, ?_, hsound⟩
      rw [hled.starts, begun_nil hproc, hnone]
    | true =>
      have hpos : 0 < s.pending.count := by
        cases hs.phase with
        | plain _ hp => rw [hproc] at hp; cases hp
        | erasing _ hp => rw [hproc] at hp; cases hp
        | storing _ _ hpos => exact hpos
      refine ⟨done, _, inProgress s, hled.served, hled.told, ?_, hsound⟩
      rw [hled.starts, begun, if_pos hproc, outstanding, Ring.toList_eq_front_cons hpos]
      exact congrArg _ (List.append_nil _).symm

theorem flash_in_order_twoStores : ∃ (done : List Settled) (waiting : List Call) (n : Nat),
    accepted afterTwoStores = done.map Settled.call ++ waiting ∧
      afterTwoStores.notified = callbacks 1 done ∧
      started afterTwoStores = (done.map Settled.ops).flatten ++
        (waiting.take 1).flatMap (fun c => (List.range n).map c.op) ∧
      ∀ d ∈ done, d.result = nrfSuccess → 4 ∣ d.call.size → d.ops = d.call.plan :=
  flash_in_order reached_afterTwoStores

end OtaFix.Pstorage

import Mathlib.Algebra.Order.BigOperators.Group.Finset
import GoClean.Memory.Locks

/-!
# Every call of the memory store returns

A call that waits for a lock waits for a call that is further on
(`LockInv.blocked_waits`), so some call can always go on; and every step of a
call lowers a rank (`rank_advanced`), so no schedule goes on for ever.
-/

namespace GoClean.Memory

open Go Transition Locking

def PC.rank : PC → Nat
  | .start => 7
  | .ready => 6
  | .timed _ => 5
  | .reserved => 4
  | .inserting => 3
  | .inserted _ => 2
  | .failing _ | .completed _ | .copied _ => 1
  | .returned _ => 0

section
variable {H : Hashes} {m m' : Locked} {i : Nat} {call : Call} {stage stage' : Stage}

theorem advance_rank {c c' : Call} (h : c.advance H s clock = some (s', c')) :
    c'.pc.rank < c.pc.rank := by
  unfold Call.advance at h
  split at h
  case h_1 hpc | h_3 hpc | h_4 hpc | h_5 hpc | h_6 hpc | h_9 hpc =>
    split at h
    all_goals
      cases h
      simp [PC.rank, hpc]
  case h_2 hpc | h_7 hpc | h_8 hpc | h_10 hpc | h_11 hpc | h_12 hpc | h_13 hpc | h_14 hpc =>
    cases h
    simp [PC.rank, hpc]
  case h_15 => cases h

theorem advance_some {c : Call} (hpasses : c.op.passes c.pc = true)
    (hpc : ∀ result, c.pc ≠ .returned result) (s : Store) (clock : Time) :
    ∃ s' c', c.advance H s clock = some (s', c') := by
  obtain ⟨op, ctx, pc, inserted, recorded⟩ := c
  suffices h : (Call.advance H s clock ⟨op, ctx, pc, inserted, recorded⟩).isSome = true by
    obtain ⟨⟨s', c'⟩, h⟩ := Option.isSome_iff_exists.mp h
    exact ⟨s', c', h⟩
  cases pc with
  | returned result => exact absurd rfl (hpc result)
  | start =>
    unfold Call.advance
    dsimp only
    split <;> rfl
  | ready =>
    cases op with
    | create value =>
      simp only [Call.advance]
      split <;> rfl
    | _ => rfl
  | timed | reserved | inserting | inserted =>
    cases op with
    | createIdempotent request =>
      simp only [Call.advance]
      split <;> rfl
    | _ => cases hpasses
  | failing | completed =>
    cases op with
    | createIdempotent request => rfl
    | _ => cases hpasses
  | copied values =>
    cases op with
    | list params => rfl
    | listAfter params => rfl
    | _ => cases hpasses

theorem step_advance_some {base : World} (ha : Answers base) (hcall : base.calls[i]? = some call)
    (hpc : ∀ result, call.pc ≠ .returned result) : step H base (.advance i) ≠ none := by
  obtain ⟨s', c', hadv⟩ := advance_some (H := H) (ha i call hcall).passes hpc base.store base.clock
  simp [step, hcall, hadv]

def Locked.Active (m : Locked) (i : Nat) : Prop :=
  m.stages i ≠ .outside ∨
    ∃ call, m.base.calls[i]? = some call ∧ ∀ result, call.pc ≠ .returned result

/-- How far on a call is; it waits only for calls that are further on. -/
def Stage.level : Stage → Nat
  | .outside => 0
  | .keyed _ | .seeking => 1
  | .announced => 2
  | .both _ | .writing _ | .reading _ => 3

theorem Stage.level_le (stage : Stage) : stage.level ≤ 3 := by
  cases stage <;> simp [Stage.level]

theorem Stage.level_of_holdsKey (h : stage.holdsKey = true) : 0 < stage.level := by
  cases stage <;> simp_all [Stage.holdsKey, Stage.level]

theorem Stage.level_of_bars (h : stage.bars = true) : 1 < stage.level := by
  cases stage <;> simp_all [Stage.bars, Stage.level]

theorem Stage.level_of_reads (h : stage.reads = true) : 2 < stage.level := by
  cases stage <;> simp_all [Stage.reads, Stage.level]

theorem active_of_level (h : k < (m.stages i).level) : m.Active i := by
  refine .inl fun hstage => ?_
  rw [hstage] at h
  cases h

theorem guard_returned (h : call.pc = .returned result) : call.guard = .free := by
  unfold Call.guard
  rw [h]
  cases call.op <;> rfl

theorem Runs.not_returned (h : Runs H m.base.store call (m.stages i) stage) (hactive : m.Active i)
    (hcall : m.base.calls[i]? = some call) (hfits : (m.stages i).fits call.guard = true)
    (result : Except Error Reply) : call.pc ≠ .returned result := by
  intro hpc
  rw [guard_returned hpc] at hfits
  obtain hstage | ⟨d, hd, hd'⟩ := hactive
  · generalize m.stages i = before at *
    cases h with
    | free => exact hstage rfl
    | _ => cases hfits
  · rw [hcall] at hd
    cases hd
    exact hd' result hpc

theorem LockInv.blocked_waits (h : LockInv m) (ha : Answers m.base) (hactive : m.Active i)
    (hblocked : lockStep H m (.advance i) = none) :
    ∃ j, m.Active j ∧ (m.stages i).level < (m.stages j).level := by
  rcases hcall : m.base.calls[i]? with _ | call
  · obtain hstage | ⟨d, hd, -⟩ := hactive
    · exact absurd (h.outside i hcall) hstage
    · rw [hcall] at hd
      cases hd
  have hnone : m.advance H i call = none := by simpa [lockStep, hcall] using hblocked
  -- whoever keeps the call out is found through the word of the lock
  cases advance_blocked hnone with
  | ended hruns hended =>
    have hpc := hruns.not_returned hactive hcall (h.fits i call hcall)
    exact absurd hended (step_advance_some ha hcall hpc)
  | key hstage hbusy =>
    obtain ⟨j, hj⟩ := Option.ne_none_iff_exists'.mp hbusy
    have hlevel := Stage.level_of_holdsKey ((h.key j).mp hj)
    exact ⟨j, active_of_level hlevel, hstage ▸ hlevel⟩
  | writer hstage hbusy =>
    obtain ⟨j, hj⟩ := Option.ne_none_iff_exists'.mp hbusy
    have hlevel := Stage.level_of_bars ((h.writer j).mp hj)
    refine ⟨j, active_of_level hlevel, lt_of_le_of_lt ?_ hlevel⟩
    rcases hstage with hstage | hstage <;> simp [hstage, Stage.level]
  | readers hstage hreaders =>
    obtain ⟨j, hj⟩ := Finset.nonempty_iff_ne_empty.mpr hreaders
    have hlevel := Stage.level_of_reads ((h.readers j).mp hj)
    exact ⟨j, active_of_level hlevel, hstage ▸ hlevel⟩

/-- Every call has returned and every lock is free. -/
structure Locked.Quiet (m : Locked) : Prop where
  returned : ∀ (i : Nat) call, m.base.calls[i]? = some call → ∃ result, call.pc = .returned result
  key : m.idempotencyMu = none
  writer : m.writer = none
  readers : m.readers = ∅

theorem LockInv.quiet (h : LockInv m) (hidle : ∀ i, ¬m.Active i) : m.Quiet := by
  have hout : ∀ i, m.stages i = .outside := fun i =>
    not_not.mp fun hstage => hidle i (.inl hstage)
  refine ⟨fun i call hcall => ?_, h.key.eq_none fun i => ?_, h.writer.eq_none fun i => ?_,
    h.readers.eq_empty fun i => ?_⟩
  · by_contra hpc
    exact hidle i (.inr ⟨call, hcall, fun result hret => hpc ⟨result, hret⟩⟩)
  all_goals
    rw [hout i]
    rfl

theorem answers_reachable {w : World} (hr : Reaches (step H) (World.init maxEntries clock) w) :
    Answers w := by
  have hboth : Inv H w ∧ Answers w := hr.invariant
    (P := fun w => Inv H w ∧ Answers w)
    (fun _ _ _ h hs _ => ⟨inv_step h.1 hs, answers_step h.1 h.2 hs⟩)
    ⟨inv_init H maxEntries clock, answers_init maxEntries clock⟩
  exact hboth.2

theorem LockInv.quiet_of_blocked (h : LockInv m) (ha : Answers m.base)
    (hblocked : ∀ i, lockStep H m (.advance i) = none) : m.Quiet := by
  refine h.quiet fun i hactive => ?_
  have hwaits : ∀ i, m.Active i → ¬(lockStep H m (.advance i)).isSome →
      ∃ j, m.Active j ∧ (m.stages i).level < (m.stages j).level :=
    fun i hactive _ => h.blocked_waits ha hactive (hblocked i)
  obtain ⟨j, hj⟩ := exists_unblocked (fun i => (m.stages i).level_le) hwaits hactive
  rw [hblocked j] at hj
  cases hj

-- ---------------------------------------------------------------------------
-- The length of a schedule
-- ---------------------------------------------------------------------------

def Stage.rank : Stage → Nat
  | .both true => 6
  | .keyed true | .writing true | .reading true => 5
  | .outside => 4
  | .keyed false => 3
  | .seeking | .announced => 2
  | .both false | .writing false | .reading false => 1

def Locked.rankAt (m : Locked) (i : Nat) : Nat :=
  match m.base.calls[i]? with
  | some call => 7 * call.pc.rank + (m.stages i).rank
  | none => 0

def Locked.rank (m : Locked) : Nat := ∑ i ∈ Finset.range m.base.calls.length, m.rankAt i

theorem Locked.rankAt_le (m : Locked) (i : Nat) : m.rankAt i ≤ 55 := by
  unfold Locked.rankAt
  split
  · next call _ =>
    have hpc : call.pc.rank ≤ 7 := by cases call.pc <;> simp [PC.rank]
    have hstage : (m.stages i).rank ≤ 6 := by
      rcases m.stages i with _ | (_ | _) | _ | (_ | _) | _ | (_ | _) | (_ | _) <;> simp [Stage.rank]
    omega
  · simp

theorem Locked.rank_le (m : Locked) : m.rank ≤ 55 * m.base.calls.length := by
  have := Finset.sum_le_card_nsmul (Finset.range m.base.calls.length) m.rankAt 55
    fun i _ => m.rankAt_le i
  rwa [Finset.card_range, Nat.nsmul_eq_mul, Nat.mul_comm] at this

theorem Runs.rank (h : Runs H store call stage stage') : stage'.rank < stage.rank + 7 := by
  cases h <;> simp [Stage.rank]

theorem rankAt_enter (hcall : m.base.calls[i]? = some call) (hbase : m'.base = m.base)
    (hstages : m'.stages = m.enter i stage) (hlt : stage.rank < (m.stages i).rank) :
    m'.rankAt i < m.rankAt i := by
  simp only [Locked.rankAt, hbase, hcall, hstages, Locked.enter, Function.update_self]
  omega

theorem rankAt_advanced (hcall : m.base.calls[i]? = some call) (hadv : Advanced H m i call m') :
    m'.rankAt i < m.rankAt i := by
  cases hadv with
  | @ran _ stage' base hstage hruns hbase =>
    obtain ⟨c, hc, hbase⟩ := Option.bind_eq_some_iff.mp hbase
    obtain ⟨⟨s', c'⟩, hcadv, hbase⟩ := Option.bind_eq_some_iff.mp hbase
    cases hbase
    cases hcall.symm.trans hc
    -- the section lowers the rank of the counter by one, which is seven here
    have hrank := advance_rank hcadv
    have hstages := hruns.rank
    simp only [Locked.rankAt, hcall, hstage, Threads.set_self hcall, Locked.enter,
      Function.update_self]
    omega
  | lockKey hstage | announce hstage | read hstage | seek hstage | readItem hstage | write hstage
  | leaveItem hstage | leaveKey hstage | leaveWrite hstage | leaveRead hstage =>
    exact rankAt_enter hcall rfl rfl (by simp [hstage, Stage.rank])

theorem rankAt_other (hadv : Advanced H m i call m') {j : Nat} (hne : j ≠ i) :
    m'.rankAt j = m.rankAt j := by
  cases hadv with
  | ran hstage hruns hbase =>
    cases step_stepped hbase with
    | advance hc =>
      simp only [Locked.rankAt, Threads.set_of_ne hne, Locked.enter, Function.update_of_ne hne]
  | _ => simp only [Locked.rankAt, Locked.enter, Function.update_of_ne hne]

theorem Advanced.calls_length (hadv : Advanced H m i call m') :
    m'.base.calls.length = m.base.calls.length := by
  cases hadv with
  | ran hstage hruns hbase =>
    cases step_stepped hbase with
    | advance hc => exact List.length_set
  | _ => rfl

theorem rank_advanced (hcall : m.base.calls[i]? = some call) (hadv : Advanced H m i call m') :
    m'.rank < m.rank := by
  have hi : i ∈ Finset.range m.base.calls.length :=
    Finset.mem_range.mpr (List.getElem?_eq_some_iff.mp hcall).1
  unfold Locked.rank
  rw [hadv.calls_length]
  refine Finset.sum_lt_sum (fun j _ => ?_) ⟨i, hi, rankAt_advanced hcall hadv⟩
  by_cases hne : j = i
  · exact hne ▸ (rankAt_advanced hcall hadv).le
  · exact (rankAt_other hadv hne).le

theorem rank_waits {base : World} (hs : step H m.base a = some base) (hne : ∀ i, a ≠ .advance i)
    (hspawn : ∀ op ctx, a ≠ .spawn op ctx) : Locked.rank { m with base := base } = m.rank := by
  have hlen : base.calls.length = m.base.calls.length := by
    cases step_stepped hs with
    | spawn => exact absurd rfl (hspawn _ _)
    | tick => rfl
    | cancel => exact List.length_set
    | advance => exact absurd rfl (hne _)
  unfold Locked.rank
  rw [hlen]
  refine Finset.sum_congr rfl fun i hi => ?_
  obtain ⟨ctx, hctx⟩ := step_waits hs hne (List.getElem?_eq_getElem (Finset.mem_range.mp hi))
  simp only [Locked.rankAt, hctx, List.getElem?_eq_getElem (Finset.mem_range.mp hi)]

def Action.isAdvance : Action → Bool
  | .advance _ => true
  | _ => false

theorem rank_step (hs : lockStep H m a = some m') (hspawn : ∀ op ctx, a ≠ .spawn op ctx) :
    m'.rank ≤ m.rank ∧ (a.isAdvance = true → m'.rank < m.rank) := by
  obtain ⟨i, call, rfl, hcall, hadv⟩ | ⟨base, hne, hbase, rfl⟩ := lockStep_cases hs
  · have := rank_advanced hcall hadv
    exact ⟨this.le, fun _ => this⟩
  · refine ⟨(rank_waits hbase hne hspawn).le, fun hown => ?_⟩
    cases a with
    | advance i => exact absurd rfl (hne i)
    | _ => cases hown

theorem schedule_length {actions : List Action}
    (hspawn : ∀ a ∈ actions, ∀ op ctx, a ≠ .spawn op ctx)
    (hrun : exec (lockStep H) m actions = some m') :
    actions.countP Action.isAdvance ≤ 55 * m.base.calls.length := by
  have hcount : actions.countP Action.isAdvance + m'.rank ≤ m.rank :=
    countP_add_rank_le actions (fun a ha _ _ hs => rank_step hs (hspawn a ha)) hrun
  have hrank := m.rank_le
  omega

end

/-- However the calls are scheduled: they take a bounded number of steps, and
where no call can go on, all have returned and given back their locks. -/
theorem calls_return_under_locks (H : Hashes) (maxEntries : Int) (clock : Time) (m m' : Locked)
    (actions : List Action) (hr : Reaches (lockStep H) (Locked.init maxEntries clock) m)
    (hspawn : ∀ a ∈ actions, ∀ op ctx, a ≠ .spawn op ctx)
    (hrun : exec (lockStep H) m actions = some m') :
    actions.countP Action.isAdvance ≤ 55 * m.base.calls.length ∧
      (m'.Quiet ∨ ∃ i, (lockStep H m' (.advance i)).isSome = true) := by
  refine ⟨schedule_length hspawn hrun, ?_⟩
  have hr' := hr.trans (exec_reaches actions hrun)
  by_cases hcan : ∃ i, (lockStep H m' (.advance i)).isSome = true
  · exact .inr hcan
  · refine .inl ((lockInv_reachable hr').quiet_of_blocked (H := H)
      (answers_reachable (base_reachable hr')) fun i => ?_)
    exact Option.not_isSome_iff_eq_none.mp fun hi => hcan ⟨i, hi⟩

/-- A keyed create has returned; then a listing reads, a create is announced
behind it, a replay waits for the create, and a fourth call for the replay. -/
def waitingActions : List Action :=
  sampleCall 1 :: List.replicate 14 (.advance 0) ++
    [.spawn (.list ⟨1, 0⟩) (some .background), .spawn (.create (sampleItem 2)) (some .background),
      sampleCall 3, sampleCall 4, .advance 1, .advance 1, .advance 2, .advance 2] ++
    List.replicate 4 (.advance 3) ++ List.replicate 2 (.advance 4)

theorem calls_return_under_locks_waiting :
    ∃ m, exec (lockStep Hashes.go) (Locked.init 2 sampleTime) waitingActions = some m ∧
      m.stages 1 = .reading false ∧ m.stages 2 = .announced ∧ m.stages 3 = .seeking ∧
      (∀ i ∈ [0, 2, 3, 4], lockStep Hashes.go m (.advance i) = none) ∧
      (m.Quiet ∨ ∃ i, (lockStep Hashes.go m (.advance i)).isSome = true) := by
  have hrun : (exec (lockStep Hashes.go) (Locked.init 2 sampleTime) waitingActions).map (fun m =>
      (m.stages 1, m.stages 2, m.stages 3,
        [0, 2, 3, 4].map fun i => (lockStep Hashes.go m (.advance i)).isNone)) =
      some (.reading false, .announced, .seeking, [true, true, true, true]) := by
    decide +kernel
  obtain ⟨m, hm, hstages⟩ := Option.map_eq_some_iff.mp hrun
  simp only [List.map_cons, List.map_nil, Prod.mk.injEq, List.cons.injEq,
    Option.isNone_iff_eq_none] at hstages
  obtain ⟨hreading, hannounced, hseeking, h0, h2, h3, h4, -⟩ := hstages
  refine ⟨m, hm, hreading, hannounced, hseeking, by simp [h0, h2, h3, h4], ?_⟩
  exact (calls_return_under_locks Hashes.go 2 sampleTime m m [] (exec_reaches _ hm) nofun rfl).2

end GoClean.Memory

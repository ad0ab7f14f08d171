import GoClean.Lib.WaitFor
import GoClean.Postgres.Invariant

/-!
# Row-lock deadlocks

A lookup waits for the transaction that has its row locked, and rows are
locked by the cleanups of other keys. `Blocks` also counts the transactions
that will come to wait, since they have passed the advisory lock and not
their lookup. Of all steps only a cleanup adds an edge to a transaction that
others may already be waiting behind, so it is the cleanup that has to
respect the graph (`Orderly`). The cleanup of the source does not.
-/

namespace GoClean.Postgres

open Go Threads Transition WaitFor Relation

def PC.approaches : PC → Bool
  | .locked | .cleaned | .looking _ => true
  | _ => false

/-- The lookup of `i` waits for a row that `j` has locked. -/
def Waits (H : Hashes) (w : World) (i j : Nat) : Prop :=
  ∃ s t row, w.sessions[i]? = some s ∧ w.sessions[j]? = some t ∧ i ≠ j ∧ s.tx = .active ∧
    s.pc = .looking row ∧ s.key H ∈ t.locks H

/-- The lookup of `i` waits for `j`, or will unless `j` ends before. -/
def Blocks (H : Hashes) (w : World) (i j : Nat) : Prop :=
  ∃ s t, w.sessions[i]? = some s ∧ w.sessions[j]? = some t ∧ i ≠ j ∧ s.tx = .active ∧
    s.pc.approaches = true ∧ s.key H ∈ t.locks H

/-- No cleanup takes the row of a transaction that the cleaning one is,
directly or through others, blocked by. -/
def Orderly (H : Hashes) (w : World) (a : Action) (_ : World) : Prop :=
  ∀ i taken, a = .cleanup i taken → ∀ (j : Nat) (s : Session), w.sessions[j]? = some s → j ≠ i →
    s.tx = .active → s.pc.approaches = true → s.key H ∈ taken → ¬ ReflTransGen (Blocks H w) i j

section
variable {H : Hashes} {D : Columns} {w w' : World} {i j l : Nat} {s s' t : Session}
    {tables : Tables}

theorem Waits.blocks (h : Waits H w i j) : Blocks H w i j := by
  obtain ⟨s, t, row, hs, ht, hne, htx, hpc, hlock⟩ := h
  exact ⟨s, t, hs, ht, hne, htx, by rw [hpc]; rfl, hlock⟩

theorem approaches_pastLock (pc : PC) (h : pc.approaches = true) : pc.pastLock = true := by
  cases pc <;> first | rfl | cases h

theorem moves_approaches (h : Moves H D w i s a s' tables) (htx : s'.tx = .active)
    (hpc : s'.pc.approaches = true) :
    s.tx = .active ∧ (s.pc.approaches = true ∨ s.pc = .begun ∧ s' = s.goto .locked) := by
  cases h with
  | run _ hrun hruns =>
    cases hruns with
    | lock hbegun _ => exact ⟨htx, .inr ⟨hbegun, rfl⟩⟩
    | seen hcleaned _ _ => exact ⟨htx, .inl (by rw [hcleaned]; rfl)⟩
    | refused _ _ => exact ⟨htx, .inl hpc⟩
    | inProgress _ _ => exact ⟨htx, .inl hpc⟩
    | missing _ _ => exact ⟨htx, .inl hpc⟩
    | duplicate _ => exact ⟨htx, .inl hpc⟩
    | _ => cases hpc
  | clean _ hactive hlocked _ => exact ⟨hactive, .inl (by rw [hlocked]; rfl)⟩
  | commit _ _ => cases htx
  | rollback _ => cases htx
  | _ => exact ⟨htx, .inl hpc⟩

theorem blocks_move (hinv : Inv H D w) (hs : w.sessions[i]? = some s)
    (hm : Moves H D w i s a s' tables) (h : Blocks H ⟨tables, w.clock, w.sessions.set i s'⟩ j l) :
    Blocks H w j l ∨ (j = i ∧ s.pc = .begun ∧ s' = s.goto .locked) ∨
      (l = i ∧ ∃ taken t, a = .cleanup i taken ∧ w.sessions[j]? = some t ∧ j ≠ i ∧ t.tx = .active ∧
        t.pc.approaches = true ∧ t.key H ∈ taken) := by
  obtain ⟨t, u, ht, hu, hne, htx, hpc, hlock⟩ := h
  rcases set_cases ht with ⟨rfl, rfl⟩ | ⟨hj, ht'⟩
  · rcases set_cases hu with ⟨rfl, -⟩ | ⟨-, hu'⟩
    · exact absurd rfl hne
    · obtain ⟨htx', hpc' | ⟨hbegun, heq⟩⟩ := moves_approaches hm htx hpc
      · exact .inl ⟨s, u, hs, hu', hne, htx', hpc', moves_key hm ▸ hlock⟩
      · exact .inr (.inl ⟨rfl, hbegun, heq⟩)
  · rcases set_cases hu with ⟨rfl, rfl⟩ | ⟨-, hu'⟩
    · rcases moves_locks hm (hinv.ok l s hs) hlock with
        hold | ⟨-, ⟨taken, rfl, hmem⟩ | ⟨hstx, hspc, hkey⟩⟩
      · exact .inl ⟨t, s, ht', hs, hne, htx, hpc, hold⟩
      · exact .inr (.inr ⟨rfl, taken, t, rfl, ht', hj, htx, hpc, hmem⟩)
      · exact absurd hkey.symm (hinv.key_ne hs ht' hj hstx hspc htx (approaches_pastLock _ hpc))
    · exact .inl ⟨t, u, ht', hu', hne, htx, hpc, hlock⟩

theorem locked_holds_nothing (hok : s.Ok H D i) (hpc : s.pc = .begun) (k : Digest) :
    k ∉ (s.goto .locked).locks H := by
  intro hk
  rcases (mem_locks.mp hk).2 with hk | ⟨hrow, -⟩
  · have huntaken : s.taken = ∅ := hok.untaken (by rw [hpc]; rfl)
    rw [show (s.goto .locked).taken = ∅ from huntaken] at hk
    simp at hk
  · cases hrow

theorem acyclic_move (hac : Acyclic (Blocks H w)) (hinv : Inv H D w) (hs : w.sessions[i]? = some s)
    (hm : Moves H D w i s a s' tables) (hok : Orderly H w a w') :
    Acyclic (Blocks H ⟨tables, w.clock, w.sessions.set i s'⟩) := by
  by_cases hlock : s.pc = .begun ∧ s' = s.goto .locked
  · -- nobody waits for `i`, which holds no row
    obtain ⟨hpc, rfl⟩ := hlock
    refine hac.out i (fun j l h => ?_) ?_
    · rcases blocks_move hinv hs hm h with hold | ⟨rfl, -⟩ | ⟨-, taken, t, rfl, -⟩
      · exact .inl hold
      · exact .inr rfl
      · cases hm
    · rintro j ⟨t, u, -, hu, -, -, -, hk⟩
      rw [set_self hs] at hu
      cases hu
      exact locked_holds_nothing (hinv.ok i s hs) hpc _ hk
  · refine hac.into i (fun j => ∃ taken t, a = .cleanup i taken ∧ w.sessions[j]? = some t ∧ j ≠ i ∧
      t.tx = .active ∧ t.pc.approaches = true ∧ t.key H ∈ taken) (fun j l h => ?_) ?_
    · rcases blocks_move hinv hs hm h with hold | ⟨-, hbegun⟩ | ⟨rfl, hS⟩
      · exact .inl hold
      · exact absurd hbegun hlock
      · exact .inr ⟨rfl, hS⟩
    · rintro j ⟨taken, t, rfl, ht, hne, htx, hpc, hmem⟩
      exact hok i taken rfl j t ht hne htx hpc hmem

theorem acyclic_step (hac : Acyclic (Blocks H w)) (hinv : Inv H D w)
    (hstep : step H D w a = some w') (hok : Orderly H w a w') : Acyclic (Blocks H w') := by
  cases step_stepped H D hstep with
  | call =>
    -- a new session has no transaction yet
    refine hac.mono fun j l h => ?_
    obtain ⟨t, u, ht, hu, hne, htx, hpc, hk⟩ := h
    rcases snoc_cases ht with ⟨-, rfl⟩ | ht
    · cases htx
    · rcases snoc_cases hu with ⟨-, rfl⟩ | hu
      · cases (mem_locks.mp hk).1
      · exact ⟨t, u, ht, hu, hne, htx, hpc, hk⟩
  | tick => exact hac
  | create _ _ => exact hac
  | move hs hm => exact acyclic_move hac hinv hs hm hok

theorem acyclic_start (H : Hashes) (tables : Tables) (clock : Timestamp) :
    Acyclic (Blocks H (World.start tables clock)) := by
  intro i hcycle
  obtain ⟨j, ⟨s, t, hs, -⟩, -⟩ := TransGen.head'_iff.mp hcycle
  simp [World.start] at hs

theorem acyclic_run (hr : Run (step H D) (Orderly H) (World.start tables clock) w) :
    Inv H D w ∧ Acyclic (Blocks H w) :=
  hr.invariant (P := fun w => Inv H D w ∧ Acyclic (Blocks H w))
    (fun _ _ _ h hs hok => ⟨inv_step h.1 hs, acyclic_step h.2 h.1 hs hok⟩)
    ⟨inv_start H D tables clock, acyclic_start H tables clock⟩

end

/-- From any tables and over any advance of the clock, transactions whose
cleanups are orderly never wait for each other in a cycle. -/
theorem orderly_no_deadlock (H : Hashes) (D : Columns) (tables : Tables)
    (clock : Timestamp) (w : World)
    (hr : Run (step H D) (Orderly H) (World.start tables clock) w) (i : Nat) :
    ¬ TransGen (Waits H w) i i := by
  intro hcycle
  exact (acyclic_run hr).2 i (TransGen.mono (fun _ _ h => h.blocks) i i hcycle)

-- ---------------------------------------------------------------------------
-- Two keys
-- ---------------------------------------------------------------------------

/-- The call on `b` waits for the cleanup of the call on `a`, which has its
record. -/
def behindActions : List Action := callActions (sampleRequest (str "b") 2) 1 ∅ ++ [.run 1]

def waiting (request : StoreRequest) (row : KeyRow) (taken : Finset Digest) : Session :=
  ⟨request, some .background, .looking row, .active, none, taken, false⟩

theorem orderly_of_nothing_taken (actions : List Action)
    (htaken : ∀ i taken, .cleanup i taken ∈ actions → taken = ∅)
    (hw : exec (step H D) w actions = some w') : Run (step H D) (Orderly H) w w' := by
  refine exec_run actions (fun a ha s t _ => ?_) hw
  rintro i taken rfl j t _ _ _ _ hmem
  rw [htaken i taken ha] at hmem
  simp at hmem

theorem orderly_no_deadlock_one_waits : ∃ w,
    Run (step Hashes.go .microseconds) (Orderly Hashes.go) (World.start twoRecords 10) w ∧
      Waits Hashes.go w 1 0 ∧ ¬ TransGen (Waits Hashes.go w) 1 1 := by
  have hrun : (exec (step Hashes.go .microseconds) (World.start twoRecords 10)
      [.call (sampleRequest (str "a") 1) (some .background), .run 0, .run 0, .run 0]).bind
        (fun w₀ =>
      (step Hashes.go .microseconds w₀ (.cleanup 0 {keyB})).bind fun w₁ =>
        (exec (step Hashes.go .microseconds) w₁ behindActions).map fun w =>
          (w₀.sessions.length, w.sessions)) =
      some (1, [⟨sampleRequest (str "a") 1, some .background, .cleaned, .active, none, {keyB},
      false⟩,
        waiting (sampleRequest (str "b") 2) (storedRow 10) ∅]) := by decide +kernel
  obtain ⟨w₀, hw₀, hrun⟩ := Option.bind_eq_some_iff.mp hrun
  obtain ⟨w₁, hw₁, hrun⟩ := Option.bind_eq_some_iff.mp hrun
  obtain ⟨w, hw, hrun⟩ := Option.map_eq_some_iff.mp hrun
  obtain ⟨hlen, hsessions⟩ := Prod.mk.inj hrun
  have hbefore := orderly_of_nothing_taken _ (by simp) hw₀
  -- there is no other session yet
  have hclean : Orderly Hashes.go w₀ (.cleanup 0 {keyB}) w₁ := by
    rintro i taken he j s hs hne
    cases he
    have hj := (List.getElem?_eq_some_iff.mp hs).1
    omega
  have hafter := orderly_of_nothing_taken behindActions (by simp [behindActions, callActions]) hw
  have hrun := (hbefore.tail hw₁ hclean).trans hafter
  refine ⟨w, hrun, ?_, orderly_no_deadlock Hashes.go .microseconds twoRecords 10 w hrun 1⟩
  refine ⟨waiting (sampleRequest (str "b") 2) (storedRow 10) ∅, _, _, by rw [hsessions]; rfl,
    by rw [hsessions]; rfl, by decide, rfl, rfl,
    mem_locks.mpr ⟨rfl, .inl (Finset.mem_singleton_self _)⟩⟩

/-- The call on `a` cleans up when only the record of `b` has expired, the
call on `b` when both have. Then both look up their records. -/
def crossingActions : List Action :=
  callActions (sampleRequest (str "a") 1) 0 {keyB} ++ [.tick 20] ++
    callActions (sampleRequest (str "b") 2) 1 {keyA} ++ [.run 0, .run 1]

theorem crossing_cleanups_deadlock : keyA ≠ keyB ∧ ∃ w,
    exec (step Hashes.go .microseconds) (World.start twoRecords 10) crossingActions = some w ∧
      TransGen (Waits Hashes.go w) 0 0 := by
  have hrun : (exec (step Hashes.go .microseconds) (World.start twoRecords 10) crossingActions).map
      World.sessions = some [waiting (sampleRequest (str "a") 1) (storedRow 20) {keyB},
        waiting (sampleRequest (str "b") 2) (storedRow 10) {keyA}] := by decide +kernel
  obtain ⟨w, hw, hsessions⟩ := Option.map_eq_some_iff.mp hrun
  have hs : w.sessions[0]? = some (waiting (sampleRequest (str "a") 1) (storedRow 20) {keyB}) := by
    rw [hsessions]
    rfl
  have ht : w.sessions[1]? = some (waiting (sampleRequest (str "b") 2) (storedRow 10) {keyA}) := by
    rw [hsessions]
    rfl
  have h₀₁ : Waits Hashes.go w 0 1 :=
    ⟨_, _, _, hs, ht, by decide, rfl, rfl, mem_locks.mpr ⟨rfl, .inl (Finset.mem_singleton_self _)⟩⟩
  have h₁₀ : Waits Hashes.go w 1 0 :=
    ⟨_, _, _, ht, hs, by decide, rfl, rfl, mem_locks.mpr ⟨rfl, .inl (Finset.mem_singleton_self _)⟩⟩
  exact ⟨by decide +kernel, w, hw, .tail (.single h₀₁) h₁₀⟩

end GoClean.Postgres

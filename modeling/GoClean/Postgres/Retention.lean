import Mathlib.Data.List.Sort
import Mathlib.Data.Prod.Lex
import GoClean.Postgres.Invariant

/-!
# When an expired record counts as absent

The lookup has no expiry predicate, so an expired record is absent only if
the cleanup before it took the row. The cleanup takes as many expired rows
as its limit allows, the oldest first, and none that is locked. So it is
sure to take the row of its own key exactly if the row is not locked and
fewer than a hundred others come before it (`treatsAsAbsent_iff`).
-/

namespace GoClean.Postgres

open Go Threads Transition

-- ---------------------------------------------------------------------------
-- What a cleanup takes
-- ---------------------------------------------------------------------------

abbrev KeyEntry := Σ _ : Digest, KeyRow

section
variable {rows sorted : List KeyEntry} {taken : Finset Digest} {e : KeyEntry}

theorem isCleanup_iff : isCleanup rows taken = true ↔
    taken ⊆ (rows.map Sigma.fst).toFinset ∧ taken.card = min cleanupLimit rows.length ∧
      ∀ e ∈ rows, ∀ e' ∈ rows, e.1 ∈ taken → e'.1 ∉ taken → e.2.expiresAt ≤ e'.2.expiresAt := by
  simp only [isCleanup, Bool.and_eq_true, decide_eq_true_eq, List.all_eq_true, and_assoc]

theorem candidates_nodup (keys : AssocMap Digest KeyRow) (now : Timestamp)
    (locked : Digest → Bool) :
    ((candidates keys now locked).map Sigma.fst).Nodup :=
  show List.NodupKeys _ from keys.nodupKeys.sublist List.filter_sublist

theorem mem_candidates {keys : AssocMap Digest KeyRow} :
    (⟨k, row⟩ : KeyEntry) ∈ candidates keys now locked ↔
    keys.lookup k = some row ∧ row.expiresAt ≤ now ∧ locked k = false := by
  simp only [candidates, List.mem_filter, AssocMap.lookup_eq_some_iff, Bool.and_eq_true,
    decide_eq_true_eq, Bool.not_eq_true']

/-- The rows of other keys that may be taken before the row `e`. -/
def ahead (e : KeyEntry) (rows : List KeyEntry) : List KeyEntry :=
  rows.filter fun e' => decide (e'.1 ≠ e.1 ∧ e'.2.expiresAt ≤ e.2.expiresAt)

theorem taken_of_few (h : isCleanup rows taken = true) (he : e ∈ rows)
    (hfew : (ahead e rows).length < cleanupLimit) : e.1 ∈ taken := by
  obtain ⟨hsub, hcard, horder⟩ := isCleanup_iff.mp h
  by_contra hnot
  -- everything taken is ahead of `e`, so there is room left for `e`
  have hahead : taken ⊆ ((ahead e rows).map Sigma.fst).toFinset := by
    intro k hk
    obtain ⟨e', he', rfl⟩ := List.mem_map.mp (List.mem_toFinset.mp (hsub hk))
    refine List.mem_toFinset.mpr
      (List.mem_map.mpr ⟨e', List.mem_filter.mpr ⟨he', decide_eq_true ?_⟩, rfl⟩)
    exact ⟨fun heq => hnot (heq ▸ hk), horder e' he' e he hk hnot⟩
  have hle : taken.card ≤ (ahead e rows).length := by
    refine (Finset.card_le_card hahead).trans ((List.toFinset_card_le _).trans ?_)
    rw [List.length_map]
  have hlt : (ahead e rows).length < rows.length :=
    List.length_filter_lt_length_iff_exists.mpr ⟨e, he, by simp⟩
  omega

theorem isCleanup_of_sorted (hnodup : (rows.map Sigma.fst).Nodup) (hperm : sorted.Perm rows)
    (hsorted : sorted.Pairwise fun e e' => e.2.expiresAt ≤ e'.2.expiresAt) :
    isCleanup rows ((sorted.take cleanupLimit).map Sigma.fst).toFinset = true := by
  have hnodup' : (sorted.map Sigma.fst).Nodup := (hperm.map Sigma.fst).nodup_iff.mpr hnodup
  have htake : ((sorted.take cleanupLimit).map Sigma.fst).Nodup :=
    hnodup'.sublist ((List.take_sublist _ _).map Sigma.fst)
  refine isCleanup_iff.mpr ⟨?_, ?_, ?_⟩
  · intro k hk
    obtain ⟨e, he, rfl⟩ := List.mem_map.mp (List.mem_toFinset.mp hk)
    exact List.mem_toFinset.mpr (List.mem_map_of_mem (hperm.mem_iff.mp (List.mem_of_mem_take he)))
  · rw [List.toFinset_card_of_nodup htake, List.length_map, List.length_take, hperm.length_eq]
  · intro e he e' he' hin hout
    obtain ⟨e₁, he₁, heq⟩ := List.mem_map.mp (List.mem_toFinset.mp hin)
    have hsame : e₁ = e :=
      List.inj_on_of_nodup_map hnodup' (List.mem_of_mem_take he₁) (hperm.mem_iff.mpr he) heq
    subst hsame
    have hdrop : e' ∈ sorted.drop cleanupLimit := by
      have hmem := hperm.mem_iff.mpr he'
      rw [← List.take_append_drop cleanupLimit sorted] at hmem
      refine (List.mem_append.mp hmem).resolve_left fun htaken => hout ?_
      exact List.mem_toFinset.mpr (List.mem_map_of_mem htaken)
    rw [← List.take_append_drop cleanupLimit sorted] at hsorted
    exact (List.pairwise_append.mp hsorted).2.2 _ he₁ _ hdrop

/-- The order that puts the key `k` last among rows of the same age. -/
def ageKey (k : Digest) (e : KeyEntry) : ℤ ×ₗ ℕ := toLex (e.2.expiresAt, if e.1 = k then 1 else 0)

def byAge (k : Digest) (rows : List KeyEntry) : List KeyEntry :=
  rows.insertionSort fun e e' => ageKey k e ≤ ageKey k e'

theorem byAge_perm (k : Digest) (rows : List KeyEntry) : (byAge k rows).Perm rows :=
  List.perm_insertionSort _ _

theorem byAge_pairwise (k : Digest) (rows : List KeyEntry) :
    (byAge k rows).Pairwise fun e e' => ageKey k e ≤ ageKey k e' := by
  have : Std.Total fun e e' : KeyEntry => ageKey k e ≤ ageKey k e' := ⟨fun e e' => le_total _ _⟩
  have : IsTrans KeyEntry fun e e' => ageKey k e ≤ ageKey k e' := ⟨fun _ _ _ => le_trans⟩
  exact List.pairwise_insertionSort _ _

theorem ageKey_le (h : ageKey k e ≤ ageKey k e') : e.2.expiresAt ≤ e'.2.expiresAt := by
  rcases Prod.Lex.toLex_le_toLex.mp h with h | h
  · exact h.le
  · exact h.1.le

theorem isCleanup_byAge (k : Digest) (hnodup : (rows.map Sigma.fst).Nodup) :
    isCleanup rows (((byAge k rows).take cleanupLimit).map Sigma.fst).toFinset = true :=
  isCleanup_of_sorted hnodup (byAge_perm k rows) ((byAge_pairwise k rows).imp ageKey_le)

theorem ahead_before (hsplit : byAge e.1 rows = front ++ e :: rest) :
    (ahead e rows).length ≤ front.length := by
  have hsorted := byAge_pairwise e.1 rows
  rw [hsplit] at hsorted
  have hnone : ahead e (e :: rest) = [] := by
    refine List.filter_eq_nil_iff.mpr fun e' he' => ?_
    rw [decide_eq_true_eq]
    rintro ⟨hne, hage⟩
    have hle : ageKey e.1 e ≤ ageKey e.1 e' := by
      rcases List.mem_cons.mp he' with rfl | he'
      · exact le_rfl
      · exact List.rel_of_pairwise_cons (List.pairwise_append.mp hsorted).2.1 he'
    rcases Prod.Lex.toLex_le_toLex.mp hle with h | ⟨-, h⟩
    · exact absurd hage (not_le.mpr h)
    · simp [hne] at h
  calc (ahead e rows).length = (ahead e (byAge e.1 rows)).length :=
    ((byAge_perm e.1 rows).filter _).length_eq.symm
    _ = (ahead e front).length := by
      rw [hsplit, ahead, List.filter_append]
      show (ahead e front ++ ahead e (e :: rest)).length = _
      rw [hnone, List.append_nil]
    _ ≤ front.length := List.length_filter_le _ _

theorem not_taken_of_many (hnodup : (rows.map Sigma.fst).Nodup) (he : e ∈ rows)
    (hmany : cleanupLimit ≤ (ahead e rows).length) :
    ∃ taken, isCleanup rows taken = true ∧ e.1 ∉ taken := by
  refine ⟨_, isCleanup_byAge e.1 hnodup, fun hin => ?_⟩
  obtain ⟨e', he', heq⟩ := List.mem_map.mp (List.mem_toFinset.mp hin)
  have hsame : e' = e := List.inj_on_of_nodup_map hnodup
    ((byAge_perm e.1 rows).mem_iff.mp (List.mem_of_mem_take he')) he heq
  subst hsame
  obtain ⟨front, rest, hsplit⟩ := List.append_of_mem he'
  have hfront : front.length < cleanupLimit := by
    have hlen := congrArg List.length hsplit
    rw [List.length_take, List.length_append, List.length_cons] at hlen
    omega
  have hwhole : byAge e'.1 rows = front ++ e' :: (rest ++ (byAge e'.1 rows).drop cleanupLimit) := by
    conv_lhs => rw [← List.take_append_drop cleanupLimit (byAge e'.1 rows), hsplit]
    simp
  have hbefore := ahead_before hwhole
  omega

end

-- ---------------------------------------------------------------------------
-- Calls that create
-- ---------------------------------------------------------------------------

/-- What a call may return if its key has no record: its own item, or an
error other than a conflict with a record. -/
def NewCreate (D : Columns) (s : Session) : Prop :=
  (∀ err, s.outcome = some (.error err) → err.is .idempotencyConflict = false) ∧
    ∀ v replayed, s.outcome = some (.ok (v, replayed)) → replayed = false ∧
    v = D.readBack s.request.value

/-- Whatever session `i`, about to clean up in `w`, takes and whatever
happens then, it returns as if its key had no record. -/
def TreatsAsAbsent (H : Hashes) (D : Columns) (w : World) (i : Nat) : Prop :=
  ∀ taken w₁ w₂ s, step H D w (.cleanup i taken) = some w₁ → Reaches (step H D) w₁ w₂ →
    w₂.sessions[i]? = some s → NewCreate D s

structure Creating (H : Hashes) (D : Columns) (s : Session) : Prop where
  own : s.key H ∈ s.taken
  pc : s.pc = .cleaned ∨ s.pc.creates = true
  result : NewCreate D s

section
variable {H : Hashes} {D : Columns} {w w' : World} {i j : Nat} {s s' t : Session} {tables : Tables}

theorem translateError_not_conflict (h : err.is .idempotencyConflict = false) :
    (translateError operation err).is .idempotencyConflict = false := by
  unfold translateError
  split
  · rfl
  · split
    · exact h
    · exact h

theorem idempotencyUnavailable_not_conflict (h : err.is .idempotencyConflict = false) :
    (idempotencyUnavailable operation err).is .idempotencyConflict = false := by
  unfold idempotencyUnavailable
  split
  · exact h
  · split
    · exact h
    · exact h

theorem insertError_not_conflict (h : err.is .idempotencyConflict = false) :
    (insertError operation short err).is .idempotencyConflict = false := by
  simp only [insertError]
  split
  · exact translateError_not_conflict h
  · exact idempotencyUnavailable_not_conflict (translateError_not_conflict h)

theorem failure_not_conflict (pc : PC) (h : isDriverError err = true) :
    (pc.failure err).is .idempotencyConflict = false := by
  have h : err.is .idempotencyConflict = false := by
    simpa using List.all_eq_true.mp h .idempotencyConflict (by simp)
  have hreplay : (replayError err).is .idempotencyConflict = false := by
    simp only [replayError]
    split
    · rfl
    · exact idempotencyUnavailable_not_conflict (translateError_not_conflict h)
  cases pc with
  | found _ => exact hreplay
  | absent => exact insertError_not_conflict h
  | inserted _ => exact insertError_not_conflict h
  | _ => exact idempotencyUnavailable_not_conflict h

theorem NewCreate.of_error (h : err.is .idempotencyConflict = false) :
    NewCreate D (s.returns (.error err)) := by
  refine ⟨fun err' he => ?_, nofun⟩
  cases he
  exact h

theorem runs_creating (h : Runs H D w i s s') (hc : Creating H D s) : Creating H D s' := by
  have hpc := hc.pc
  cases h with
  | unseen _ _ => exact ⟨hc.own, .inr rfl, hc.result⟩
  | seen _ hmem _ => exact absurd hc.own hmem
  | duplicate _ => exact ⟨hc.own, hc.pc, .of_error (insertError_not_conflict rfl)⟩
  | insert _ _ _ => exact ⟨hc.own, .inr rfl, hc.result⟩
  | record _ _ _ => exact ⟨hc.own, .inr rfl, hc.result⟩
  | refused h _ => simp [h, PC.creates] at hpc
  | enter h _ => simp [h, PC.creates] at hpc
  | begin h => simp [h, PC.creates] at hpc
  | inProgress h _ => simp [h, PC.creates] at hpc
  | lock h _ => simp [h, PC.creates] at hpc
  | gone h _ => simp [h, PC.creates] at hpc
  | grab h _ _ => simp [h, PC.creates] at hpc
  | replay h _ => simp [h, PC.creates] at hpc
  | missing h _ => simp [h, PC.creates] at hpc

theorem moves_creating (h : Moves H D w i s a s' tables) (hok : s.Ok H D i) (hc : Creating H D s) :
    Creating H D s' := by
  cases h with
  | run _ _ hrun => exact runs_creating hrun hc
  | clean _ _ hpc _ =>
    have := hc.pc
    simp [hpc, PC.creates] at this
  | fail _ _ herr => exact ⟨hc.own, hc.pc, .of_error (failure_not_conflict _ herr)⟩
  | acknowledge _ _ hreply =>
    refine ⟨hc.own, hc.pc, nofun, fun v replayed he => ?_⟩
    cases he
    -- of the commits, only that of a new item lies on this path
    have hpc := hc.pc
    cases hp : s.pc with
    | recorded created row =>
      rw [hp] at hreply
      cases hreply
      exact ⟨rfl, hok.created _ (by rw [hp]; rfl)⟩
    | _ => simp [hp, PC.reply, PC.creates] at hreply hpc
  | _ => exact ⟨hc.own, hc.pc, hc.result⟩

theorem creating_step (hinv : Inv H D w) (hs : w.sessions[i]? = some s) (hc : Creating H D s)
    (hstep : step H D w a = some w') : ∃ s', w'.sessions[i]? = some s' ∧ Creating H D s' := by
  cases step_stepped H D hstep with
  | call => exact ⟨s, snoc_of_some hs, hc⟩
  | tick => exact ⟨s, hs, hc⟩
  | create _ _ => exact ⟨s, hs, hc⟩
  | @move j _ _ _ _ ht hm =>
    by_cases hj : i = j
    · subst hj
      rw [hs] at ht
      cases ht
      exact ⟨_, set_self hs, moves_creating hm (hinv.ok i s hs) hc⟩
    · exact ⟨s, (set_of_ne hj).trans hs, hc⟩

theorem creating_run (hinv : Inv H D w) (hs : w.sessions[i]? = some s) (hc : Creating H D s)
    (hr : Reaches (step H D) w w') : ∃ s', w'.sessions[i]? = some s' ∧ Creating H D s' := by
  refine (hr.invariant (P := fun w => Inv H D w ∧ ∃ s, w.sessions[i]? = some s ∧ Creating H D s)
    ?_ ⟨hinv, s, hs, hc⟩).2
  rintro w a w' ⟨hinv, s, hs, hc⟩ hstep -
  exact ⟨inv_step hinv hstep, creating_step hinv hs hc hstep⟩

end

-- ---------------------------------------------------------------------------
-- Calls that find the record
-- ---------------------------------------------------------------------------

/-- The constraints of `item_idempotency_keys`: the length of
`request_hash`, and the reference to an item. -/
structure Schema (tables : Tables) : Prop where
  hash : ∀ k row, tables.keys.lookup k = some row → row.requestHash.length = 32
  item : ∀ k row, tables.keys.lookup k = some row → ∃ itemRow,
    tables.items.lookup row.itemID = some itemRow

theorem schema_of_entries (tables : Tables) (h : ∀ e ∈ tables.keys.entries,
    e.2.requestHash.length = 32 ∧ (tables.items.lookup e.2.itemID).isSome = true) : Schema tables :=
  ⟨fun _ _ hrow => (h _ (AssocMap.lookup_eq_some_iff.mp hrow)).1,
    fun _ _ hrow => Option.isSome_iff_exists.mp (h _ (AssocMap.lookup_eq_some_iff.mp hrow)).2⟩

section
variable {H : Hashes} {D : Columns} {w w' : World} {i j : Nat} {s s' t : Session} {tables : Tables}

theorem Schema.commit (h : Schema w.tables) (hinv : Inv H D w) (hs : w.sessions[i]? = some s) :
    Schema (w.committed H i s) := by
  refine ⟨fun k row hrow => ?_, fun k row hrow => ?_⟩
  · rcases committed_key_cases hrow with ⟨hrec, -⟩ | hold
    · obtain ⟨-, v, hpc⟩ := record_eq.mp hrec
      rw [((hinv.ok i s hs).row v row hpc).2.1]
      exact List.Vector.toList_length _
    · exact h.hash k row hold
  · rcases committed_key_cases hrow with ⟨hrec, -⟩ | hold
    · obtain ⟨htx, v, hpc⟩ := record_eq.mp hrec
      rw [((hinv.ok i s hs).row v row hpc).1]
      exact ⟨_, lookup_committed_item htx hpc⟩
    · obtain ⟨itemRow, hitem⟩ := h.item k row hold
      exact ⟨itemRow, hinv.committed_items hs hitem⟩

theorem schema_step (h : Schema w.tables) (hinv : Inv H D w) (hstep : step H D w a = some w') :
    Schema w'.tables := by
  cases step_stepped H D hstep with
  | call => exact h
  | tick => exact h
  | @create value hid _ =>
    refine ⟨h.hash, fun k row hrow => ?_⟩
    obtain ⟨itemRow, hitem⟩ := h.item k row hrow
    refine ⟨itemRow, ?_⟩
    rw [AList.lookup_insert_ne]
    · exact hitem
    · rintro he
      rw [he, hid] at hitem
      cases hitem
  | move hs hm =>
    rcases moves_tables hm with rfl | ⟨rfl, -⟩
    · exact h
    · exact h.commit hinv hs

theorem schema_reachable (h : Schema tables)
    (hr : Reaches (step H D) (World.start tables clock) w) :
    Inv H D w ∧ Schema w.tables :=
  hr.invariant (P := fun w => Inv H D w ∧ Schema w.tables)
    (fun _ _ _ h hs _ => ⟨inv_step h.1 hs, schema_step h.2 h.1 hs⟩) ⟨inv_start H D tables clock, h⟩

theorem step_run (hs : w.sessions[i]? = some s) (hout : s.outcome = none)
    (htx : s.tx = s.pc.txState)
    (hrun : s.run H D w i = some s') : step H D w (.run i) = some (w.update i s') := by
  simp only [step, hs, Option.bind_eq_bind, Option.bind_some, hout, htx, hrun, Option.isNone_none,
    decide_true, Bool.and_self, if_true, Option.map_some]

theorem lockedByOther_update (w : World) (i : Nat) (s : Session) (k : Digest) :
    (w.update i s).lockedByOther H i k = w.lockedByOther H i k := by
  rw [Bool.eq_iff_iff, World.lockedByOther, World.lockedByOther, anyOther_iff, anyOther_iff]
  refine exists_congr fun j => exists_congr fun t => and_congr_right fun hne => ?_
  rw [World.update, set_of_ne hne]

theorem sessions_update (hs : w.sessions[i]? = some s) : (w.update i s').sessions[i]? = some s' :=
  set_self hs

theorem step_commits (hs : w.sessions[i]? = some s) (htx : s.tx = .active)
    (hreply : s.pc.reply = some reply) :
    step H D w (.commit i) =
      some ⟨w.committed H i s, w.clock, w.sessions.set i { s with tx := .committed }⟩ := by
  simp [step, hs, htx, hreply]

theorem step_acknowledges (hs : w.sessions[i]? = some s) (hout : s.outcome = none)
    (htx : s.tx = .committed) (hreply : s.pc.reply = some reply) :
    step H D w (.acknowledge i) = some (w.update i (s.returns (.ok reply))) := by
  simp [step, hs, hout, htx, hreply]

theorem run_cleaned (hpc : s.pc = .cleaned) (hown : s.key H ∉ s.taken)
    (hrow : w.tables.keys.lookup (s.key H) = some row) :
    s.run H D w i = some (s.goto (.looking row)) := by
  simp [Session.run, hpc, hown, hrow]

theorem run_looking (hpc : s.pc = .looking row) (hfree : w.lockedByOther H i (s.key H) = false)
    (hrow : w.tables.keys.lookup (s.key H) = some row) : s.run H D w i =
      some { s with pc := .found row, outcome := (mismatch s.request row).map .error } := by
  simp [Session.run, hpc, hfree, hrow]

theorem run_found (hpc : s.pc = .found row)
    (hitem : w.tables.items.lookup row.itemID = some itemRow) :
    s.run H D w i = some (s.goto (.replaying itemRow.value)) := by
  simp [Session.run, hpc, hitem]

/-- The lookup of a session that has not taken its own row, which nobody
else has locked. -/
theorem reaches_found (hs : w.sessions[i]? = some s) (hout : s.outcome = none)
    (htx : s.tx = .active) (hpc : s.pc = .cleaned) (hown : s.key H ∉ s.taken)
    (hrow : w.tables.keys.lookup (s.key H) = some row)
    (hfree : w.lockedByOther H i (s.key H) = false) :
    ∃ w', Reaches (step H D) w w' ∧ w'.tables = w.tables ∧ w'.sessions[i]? =
      some { s with pc := .found row, outcome := (mismatch s.request row).map .error } := by
  have hlook :=
    step_run hs hout (by rw [htx, hpc]; rfl) (run_cleaned (D := D) (i := i) hpc hown hrow)
  have hs₁ : (w.update i (s.goto (.looking row))).sessions[i]? = some (s.goto (.looking row)) :=
    sessions_update hs
  have hfree₁ : (w.update i (s.goto (.looking row))).lockedByOther H i (s.key H) = false := by
    rw [lockedByOther_update, hfree]
  have hgrab := step_run hs₁ hout htx (run_looking (D := D) rfl hfree₁ hrow)
  exact ⟨_, (Run.refl.tail hlook trivial).tail hgrab trivial, rfl, sessions_update hs₁⟩

theorem reaches_replay (hs : w.sessions[i]? = some s) (hout : s.outcome = none)
    (htx : s.tx = .active)
    (hpc : s.pc = .found row) (hitem : w.tables.items.lookup row.itemID = some itemRow) :
    ∃ w' s', Reaches (step H D) w w' ∧ w'.sessions[i]? = some s' ∧
      s'.outcome = some (.ok (itemRow.value, true)) := by
  have hread :=
    step_run hs hout (by rw [htx, hpc]; rfl) (run_found (H := H) (D := D) (i := i) hpc hitem)
  have hs₁ : (w.update i (s.goto (.replaying itemRow.value))).sessions[i]? =
      some (s.goto (.replaying itemRow.value)) := sessions_update hs
  have hcommit := step_commits (H := H) (D := D) hs₁ htx rfl
  have hs₂ : ((w.update i (s.goto (.replaying itemRow.value))).sessions.set i
      { s.goto (.replaying itemRow.value) with tx := .committed })[i]? =
      some { s.goto (.replaying itemRow.value) with tx := .committed } := set_self hs₁
  exact ⟨_, _, ((Run.refl.tail hread trivial).tail hcommit trivial).tail
    (step_acknowledges hs₂ hout rfl rfl) trivial, sessions_update hs₂, rfl⟩

theorem finds_record (hschema : Schema w.tables) (hs : w.sessions[i]? = some s)
    (hout : s.outcome = none)
    (htx : s.tx = .active) (hpc : s.pc = .cleaned) (hown : s.key H ∉ s.taken)
    (hrow : w.tables.keys.lookup (s.key H) = some row)
    (hfree : w.lockedByOther H i (s.key H) = false) :
    ∃ w' s', Reaches (step H D) w w' ∧ w'.sessions[i]? = some s' ∧ ¬ NewCreate D s' := by
  obtain ⟨w₁, hr, htables, hs₁⟩ := reaches_found (D := D) hs hout htx hpc hown hrow hfree
  by_cases hsame : row.requestHash = (requestHash s.request.fingerprint).toList
  · have hnone : mismatch s.request row = none := by simp [mismatch, hsame]
    obtain ⟨itemRow, hitem⟩ := hschema.item _ _ hrow
    rw [hnone] at hs₁
    obtain ⟨w₂, s₂, hr₂, hs₂, hok⟩ := reaches_replay (D := D) hs₁ rfl htx rfl (htables ▸ hitem)
    exact ⟨w₂, s₂, hr.trans hr₂, hs₂, fun h => absurd (h.2 _ _ hok).1 (by simp)⟩
  · have hconflict : mismatch s.request row = some errIdempotencyConflict := by
      simp [mismatch, hschema.hash _ _ hrow, hsame]
    rw [hconflict] at hs₁
    exact ⟨w₁, _, hr, hs₁, fun h => absurd (h.1 _ rfl) (by simp [Error.is])⟩

-- ---------------------------------------------------------------------------
-- Which of the two
-- ---------------------------------------------------------------------------

theorem step_cleans (hs : w.sessions[i]? = some s) (hout : s.outcome = none) (htx : s.tx = .active)
    (hpc : s.pc = .locked)
    (hclean : isCleanup (candidates w.tables.keys w.clock (w.lockedByOther H i)) taken = true) :
    step H D w (.cleanup i taken) =
      some (w.update i { s with pc := .cleaned, taken := taken }) := by
  simp [step, hs, hout, htx, hpc, hclean]

theorem cleanup_cleans (hstep : step H D w (.cleanup i taken) = some w')
    (hs : w.sessions[i]? = some s) :
    isCleanup (candidates w.tables.keys w.clock (w.lockedByOther H i)) taken = true ∧
      w' = w.update i { s with pc := .cleaned, taken := taken } := by
  simp only [step, hs, Option.bind_eq_bind, Option.bind_some] at hstep
  split at hstep
  · next hguard =>
    simp only [Bool.and_eq_true] at hguard
    exact ⟨hguard.2, (Option.some.inj hstep).symm⟩
  · cases hstep

theorem treats_of_taken (hinv : Inv H D w) (hs : w.sessions[i]? = some s) (hout : s.outcome = none)
    (hall : ∀ taken, isCleanup (candidates w.tables.keys w.clock (w.lockedByOther H i)) taken =
      true →
      s.key H ∈ taken) : TreatsAsAbsent H D w i := by
  intro taken w₁ w₂ s₂ hstep hr hs₂
  obtain ⟨hclean, rfl⟩ := cleanup_cleans hstep hs
  have hc : Creating H D { s with pc := .cleaned, taken := taken } := by
    refine ⟨hall taken hclean, .inl rfl, fun err he => ?_, fun v replayed he => ?_⟩
    · rw [show s.outcome = some (.error err) from he] at hout
      cases hout
    · rw [show s.outcome = some (.ok (v, replayed)) from he] at hout
      cases hout
  obtain ⟨s', hs', hc'⟩ := creating_run (inv_step hinv hstep) (sessions_update hs) hc hr
  rw [hs₂] at hs'
  cases hs'
  exact hc'.result

theorem not_treats_of_left (hschema : Schema w.tables) (hs : w.sessions[i]? = some s)
    (hout : s.outcome = none) (htx : s.tx = .active) (hpc : s.pc = .locked)
    (hrow : w.tables.keys.lookup (s.key H) = some row)
    (hfree : w.lockedByOther H i (s.key H) = false)
    (hclean : isCleanup (candidates w.tables.keys w.clock (w.lockedByOther H i)) taken = true)
    (hleft : s.key H ∉ taken) : ¬ TreatsAsAbsent H D w i := by
  intro htreats
  obtain ⟨w₂, s₂, hr, hs₂, hnot⟩ := finds_record (D := D)
    (w := w.update i { s with pc := .cleaned, taken := taken }) hschema (sessions_update hs)
    hout htx rfl hleft hrow (by rw [lockedByOther_update]; exact hfree)
  exact hnot (htreats taken _ w₂ s₂ (step_cleans hs hout htx hpc hclean) hr hs₂)

theorem not_taken_of_locked (keys : AssocMap Digest KeyRow) (now : Timestamp)
    (hlocked : locked k = true) :
    ∃ taken, isCleanup (candidates keys now locked) taken = true ∧ k ∉ taken := by
  have hclean := isCleanup_byAge k (candidates_nodup keys now locked)
  refine ⟨_, hclean, fun hmem => ?_⟩
  rw [(isCleanup_mem hclean hmem).1] at hlocked
  cases hlocked

theorem rollback_frees (hinv : Inv H D w) (hs : w.sessions[i]? = some s) (hne : j ≠ i)
    (ht : w.sessions[j]? = some t) (hk : k ∈ t.locks H) :
    step H D w (.rollback j) = some (w.update j { t with tx := .aborted }) ∧
      (w.update j { t with tx := .aborted }).sessions[i]? = some s ∧
      (w.update j { t with tx := .aborted }).lockedByOther H i k = false := by
  have htx : t.tx = .active := (mem_locks.mp hk).1
  refine ⟨by simp [step, ht, htx], ?_, lockedByOther_eq_false.mpr fun n u hn hu hku => ?_⟩
  · rw [World.update, set_of_ne hne.symm]
    exact hs
  · by_cases hnj : n = j
    · subst hnj
      rw [sessions_update ht] at hu
      cases hu
      cases (mem_locks.mp hku).1
    · rw [World.update, set_of_ne hnj] at hu
      exact hnj (hinv.locks n j u t k hu ht hku hk)

/-- A row that another transaction has locked is left by the cleanup, and
found if that transaction rolls back. -/
theorem not_treats_of_locked (hinv : Inv H D w) (hschema : Schema w.tables)
    (hs : w.sessions[i]? = some s)
    (hout : s.outcome = none) (htx : s.tx = .active) (hpc : s.pc = .locked)
    (hrow : w.tables.keys.lookup (s.key H) = some row)
    (hlocked : w.lockedByOther H i (s.key H) = true) :
    ¬ TreatsAsAbsent H D w i := by
  intro htreats
  obtain ⟨j, t, hne, ht, hk⟩ := anyOther_iff.mp hlocked
  obtain ⟨taken, hclean, hleft⟩ := not_taken_of_locked w.tables.keys w.clock hlocked
  have hcleans := step_cleans (D := D) hs hout htx hpc hclean
  have ht₁ : (w.update i { s with pc := .cleaned, taken := taken }).sessions[j]? = some t := by
    rw [World.update, set_of_ne hne]
    exact ht
  obtain ⟨hrolls, hs₁, hfree⟩ :=
    rollback_frees (inv_step hinv hcleans) (sessions_update hs) hne ht₁ (of_decide_eq_true hk)
  obtain ⟨w₂, s₂, hr, hs₂, hnot⟩ :=
    finds_record (D := D) (w := (w.update i _).update j _) hschema hs₁ hout htx rfl hleft hrow hfree
  exact hnot (htreats taken _ w₂ s₂ hcleans ((Run.refl.tail hrolls trivial).trans hr) hs₂)

end

/-- A record that has expired when its session cleans up. -/
theorem treatsAsAbsent_iff (H : Hashes) (D : Columns) (tables : Tables)
    (clock : Timestamp) (w : World)
    (hschema : Schema tables) (hr : Reaches (step H D) (World.start tables clock) w)
    (i : Nat) (s : Session)
    (row : KeyRow) (hs : w.sessions[i]? = some s) (hout : s.outcome = none) (htx : s.tx = .active)
    (hpc : s.pc = .locked) (hrow : w.tables.keys.lookup (s.key H) = some row)
    (hexpired : row.expiresAt ≤ w.clock) :
    TreatsAsAbsent H D w i ↔
      w.lockedByOther H i (s.key H) = false ∧
        (ahead ⟨s.key H, row⟩ (candidates w.tables.keys w.clock (w.lockedByOther H i))).length <
          cleanupLimit := by
  obtain ⟨hinv, hschema⟩ := schema_reachable hschema hr
  constructor
  · intro htreats
    have hfree : w.lockedByOther H i (s.key H) = false := by
      by_contra hlocked
      exact not_treats_of_locked hinv hschema hs hout htx hpc hrow (by simpa using hlocked) htreats
    refine ⟨hfree, ?_⟩
    by_contra hmany
    obtain ⟨taken, hclean, hleft⟩ := not_taken_of_many
      (candidates_nodup w.tables.keys w.clock (w.lockedByOther H i))
      (mem_candidates.mpr ⟨hrow, hexpired, hfree⟩) (Nat.le_of_not_lt hmany)
    exact not_treats_of_left hschema hs hout htx hpc hrow hfree hclean hleft htreats
  · rintro ⟨hfree, hfew⟩
    exact treats_of_taken hinv hs hout fun taken hclean =>
      taken_of_few hclean (mem_candidates.mpr ⟨hrow, hexpired, hfree⟩) hfew

theorem treatsAsAbsent_one_older : ∃ w,
    exec (step Hashes.go .microseconds) (World.start twoRecords 20)
      [.call (sampleRequest (str "a") 1) (some .background), .run 0, .run 0, .run 0] = some w ∧
    w.tables.keys.lookup keyA = some (storedRow 20) ∧
    TreatsAsAbsent Hashes.go .microseconds w 0 := by
  have hrun : (exec (step Hashes.go .microseconds) (World.start twoRecords 20)
      [.call (sampleRequest (str "a") 1) (some .background), .run 0, .run 0, .run 0]) =
      some ⟨twoRecords, 20,
      [⟨sampleRequest (str "a") 1, some .background, .locked, .active, none, ∅, false⟩]⟩ := by
    rfl
  have hrow : twoRecords.keys.lookup keyA = some (storedRow 20) := by decide +kernel
  have hschema : Schema twoRecords := schema_of_entries _ (by decide +kernel)
  refine ⟨_, hrun, hrow, (treatsAsAbsent_iff Hashes.go .microseconds twoRecords 20 _ hschema
    (exec_reaches _ hrun) 0 _ (storedRow 20) rfl rfl rfl rfl hrow (by decide)).mpr
      (by decide +kernel)⟩

-- ---------------------------------------------------------------------------
-- A hundred older records
-- ---------------------------------------------------------------------------

def otherKey (n : Nat) : Digest := ⟨List.replicate 32 (UInt8.ofNat n), rfl⟩

/-- A hundred records, and the record of `a`, which expires after them. -/
def crowdedRecords : Tables where
  items := AList.insert (sampleItem 9).id ⟨sampleItem 9, none⟩ ∅
  keys := (List.range cleanupLimit).foldl
    (fun keys n => AList.insert (otherKey n) (storedRow n) keys)
    (AList.insert keyA (storedRow cleanupLimit) ∅)

def otherKeys : Finset Digest := ((List.range cleanupLimit).map otherKey).toFinset

theorem hundred_older_records_replay : ∃ w w',
    exec (step Hashes.go .microseconds) (World.start crowdedRecords cleanupLimit)
      [.call (sampleRequest (str "a") 1) (some .background), .run 0, .run 0, .run 0] = some w ∧
    w.tables.keys.lookup keyA = some (storedRow cleanupLimit) ∧ w.clock = cleanupLimit ∧
    exec (step Hashes.go .microseconds) w
      [.cleanup 0 otherKeys, .run 0, .run 0, .run 0, .commit 0, .acknowledge 0] = some w' ∧
    w'.sessions.map Session.outcome = [some (.ok (sampleItem 9, true))] ∧
    ¬ TreatsAsAbsent Hashes.go .microseconds w 0 := by
  have hrow : crowdedRecords.keys.lookup keyA = some (storedRow cleanupLimit) := by decide +kernel
  have hrun : ((step Hashes.go .microseconds ⟨crowdedRecords, cleanupLimit,
      [⟨sampleRequest (str "a") 1, some .background, .locked, .active, none, ∅, false⟩]⟩
      (.cleanup 0 otherKeys)).bind
      fun w₁ => exec (step Hashes.go .microseconds) w₁ [.run 0, .run 0, .run 0, .commit 0,
        .acknowledge 0]).map
      (fun w' => w'.sessions.map Session.outcome) = some [some (.ok (sampleItem 9, true))] := by
    set_option synthInstance.maxSize 1000 in decide +kernel
  obtain ⟨w', hw', houtcome⟩ := Option.map_eq_some_iff.mp hrun
  obtain ⟨w₁, hw₁, hafter⟩ := Option.bind_eq_some_iff.mp hw'
  refine ⟨_, w', rfl, hrow, rfl, hw', houtcome, fun htreats => ?_⟩
  obtain ⟨s', hs', hok⟩ := List.map_eq_singleton_iff.mp houtcome
  have hnew := htreats otherKeys w₁ w' s' hw₁ (exec_reaches _ hafter) (by rw [hs']; rfl)
  cases (hnew.2 _ _ hok).1

end GoClean.Postgres

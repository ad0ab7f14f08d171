import GoClean.Postgres.Invariant

/-!
# One committed item per record

From an empty database every record was committed together with its item,
by one transaction on its key (`Committed`). While a record stays, every
other transaction on its key that commits has read that record, so it
inserts nothing and returns the record's item (`Window`). This holds
whether or not a client hears of its commit.
-/

namespace GoClean.Postgres

open Go Threads Transition

structure Committed (H : Hashes) (w : World) : Prop where
  records : ∀ k row, w.tables.keys.lookup k = some row →
    ∃ (i : Nat) (s : Session) (v : Item), w.sessions[i]? = some s ∧ s.key H = k ∧
    s.tx = .committed ∧
      s.pc = .recorded v row ∧ row.xmin = some i ∧
      w.tables.items.lookup row.itemID = some ⟨v, some i⟩
  items : ∀ id row, w.tables.items.lookup id = some row → row.value.id = id ∧
    ∀ i, row.xmin = some i → ∃ (s : Session) (r : KeyRow), w.sessions[i]? = some s ∧
    s.tx = .committed ∧
      s.pc = .recorded row.value r
  stored : ∀ (i : Nat) s v r, w.sessions[i]? = some s → s.tx = .committed → s.pc = .recorded v r →
    w.tables.items.lookup v.id = some ⟨v, some i⟩
  /-- A replay repeats what a transaction on the same key committed. -/
  replays : ∀ (j : Nat) t v, w.sessions[j]? = some t → t.tx = .committed → t.pc = .replaying v →
    ∃ (i : Nat) (s : Session) (r : KeyRow), w.sessions[i]? = some s ∧ s.key H = t.key H ∧
      s.tx = .committed ∧ s.pc = .recorded v r

section
variable {H : Hashes} {D : Columns} {w w' w₀ : World} {i j : Nat} {s s' t : Session}
    {tables : Tables}

theorem committed_init (H : Hashes) (clock : Timestamp) : Committed H (World.init clock) where
  records k row h := by simp [World.init, World.start, Tables.empty] at h
  items id row h := by simp [World.init, World.start, Tables.empty] at h
  stored i s v r h := by simp [World.init, World.start] at h
  replays j t v h := by simp [World.init, World.start] at h

theorem moves_committed (h : Moves H D w i s a s' tables) (htx : s.tx = .committed) :
    s'.tx = .committed ∧ s'.pc = s.pc ∧ tables = w.tables := by
  cases h with
  | run _ hrun _ =>
    rw [htx] at hrun
    cases hpc : s.pc <;> rw [hpc] at hrun <;> cases hrun
  | clean _ hactive _ _ => rw [htx] at hactive; cases hactive
  | commit hactive _ => rw [htx] at hactive; cases hactive
  | rollback hactive => rw [htx] at hactive; cases hactive
  | _ => exact ⟨htx, rfl, rfl⟩

theorem moves_commits (h : Moves H D w i s a s' tables) (htx : s'.tx = .committed) :
    (s.tx = .committed ∧ s'.pc = s.pc ∧ tables = w.tables) ∨
      (s.tx = .active ∧ s' = { s with tx := .committed } ∧ tables = w.committed H i s) := by
  cases h with
  | run _ hrun hruns =>
    rcases runs_tx hruns with he | he
    · have hcommitted : s.tx = .committed := he.symm.trans htx
      rw [hcommitted] at hrun
      cases hpc : s.pc <;> rw [hpc] at hrun <;> cases hrun
    · rw [htx] at he
      cases he
  | clean _ hactive _ _ => rw [show s.tx = .committed from htx] at hactive; cases hactive
  | commit hactive _ => exact .inr ⟨hactive, rfl, rfl⟩
  | rollback _ => cases htx
  | _ => exact .inl ⟨htx, rfl, rfl⟩

theorem committed_session (hs : w.sessions[i]? = some s) (hm : Moves H D w i s a s' tables)
    (ht : w.sessions[j]? = some t) (htx : t.tx = .committed) :
    ∃ t', (w.sessions.set i s')[j]? = some t' ∧ t'.key H = t.key H ∧ t'.tx = .committed ∧
    t'.pc = t.pc := by
  by_cases hj : j = i
  · subst hj
    rw [hs] at ht
    cases ht
    obtain ⟨htx', hpc, -⟩ := moves_committed hm htx
    exact ⟨s', set_self hs, moves_key hm, htx', hpc⟩
  · exact ⟨t, (set_of_ne hj).trans ht, rfl, htx, rfl⟩

theorem committed_session_run (ht : w.sessions[j]? = some t) (htx : t.tx = .committed)
    (hr : Reaches (step H D) w w') :
    ∃ t', w'.sessions[j]? = some t' ∧ t'.tx = .committed ∧ t'.pc = t.pc := by
  refine hr.invariant (P := fun w => ∃ t', w.sessions[j]? = some t' ∧
    t'.tx = .committed ∧ t'.pc = t.pc)
    ?_ ⟨t, ht, htx, rfl⟩
  rintro w a w' ⟨t', ht', htx', hpc'⟩ hstep -
  cases step_stepped H D hstep with
  | call => exact ⟨t', snoc_of_some ht', htx', hpc'⟩
  | tick => exact ⟨t', ht', htx', hpc'⟩
  | create _ _ => exact ⟨t', ht', htx', hpc'⟩
  | move hs hm =>
    obtain ⟨t₁, ht₁, -, htx₁, hpc₁⟩ := committed_session (H := H) hs hm ht' htx'
    exact ⟨t₁, ht₁, htx₁, hpc₁.trans hpc'⟩

theorem step_commit (hstep : step H D w (.commit i) = some w') (hs : w.sessions[i]? = some s) :
    w' = ⟨w.committed H i s, w.clock, w.sessions.set i { s with tx := .committed }⟩ := by
  simp only [step, hs, Option.bind_eq_bind, Option.bind_some] at hstep
  split at hstep
  · exact (Option.some.inj hstep).symm
  · cases hstep

theorem moves_record (hm : Moves H D w i s a s' tables) (hrow : tables.keys.lookup k = some row) :
    w.tables.keys.lookup k = some row ∨
      s.record = some row ∧ s.key H = k ∧ tables = w.committed H i s ∧
      s' = { s with tx := .committed } := by
  rcases moves_tables hm with rfl | ⟨rfl, -, rfl, -⟩
  · exact .inl hrow
  · rcases committed_key_cases hrow with ⟨hrec, hkey⟩ | hold
    · exact .inr ⟨hrec, hkey, rfl, rfl⟩
    · exact .inl hold

theorem Inv.items_move (h : Inv H D w) (hs : w.sessions[i]? = some s)
    (hm : Moves H D w i s a s' tables) {id : UUID} (hrow : w.tables.items.lookup id = some row) :
    tables.items.lookup id = some row := by
  rcases moves_tables hm with rfl | ⟨rfl, -⟩
  · exact hrow
  · exact h.committed_items hs hrow

theorem Committed.records_move (h : Committed H w) (hinv : Inv H D w) (hs : w.sessions[i]? = some s)
    (hm : Moves H D w i s a s' tables) (hrow : tables.keys.lookup k = some row) :
    ∃ (j : Nat) (t : Session) (v : Item), (w.sessions.set i s')[j]? = some t ∧ t.key H = k ∧
      t.tx = .committed ∧ t.pc = .recorded v row ∧ row.xmin = some j ∧
      tables.items.lookup row.itemID = some ⟨v, some j⟩ := by
  rcases moves_record hm hrow with hold | ⟨hrec, hkey, rfl, rfl⟩
  · obtain ⟨j, t, v, ht, hkey, htx, hpc, hxmin, hitem⟩ := h.records k row hold
    obtain ⟨t', ht', hkey', htx', hpc'⟩ := committed_session hs hm ht htx
    exact ⟨j, t', v, ht', hkey'.trans hkey, htx', hpc'.trans hpc, hxmin,
      hinv.items_move hs hm hitem⟩
  · obtain ⟨htx, v, hpc⟩ := record_eq.mp hrec
    obtain ⟨hid, -, hxmin⟩ := (hinv.ok i s hs).row v row hpc
    refine ⟨i, { s with tx := .committed }, v, set_self hs, hkey, rfl, hpc, hxmin, ?_⟩
    rw [hid]
    exact lookup_committed_item htx hpc

theorem Committed.items_move (h : Committed H w) (hs : w.sessions[i]? = some s)
    (hm : Moves H D w i s a s' tables) {id : UUID} (hrow : tables.items.lookup id = some row) :
    row.value.id = id ∧ ∀ j, row.xmin = some j → ∃ (t : Session) (r : KeyRow),
      (w.sessions.set i s')[j]? = some t ∧ t.tx = .committed ∧ t.pc = .recorded row.value r := by
  have hkeep (hold : w.tables.items.lookup id = some row) : row.value.id = id ∧
      ∀ j, row.xmin = some j → ∃ (t : Session) (r : KeyRow),
        (w.sessions.set i s')[j]? = some t ∧ t.tx = .committed ∧ t.pc = .recorded row.value r := by
    obtain ⟨hid, hauthor⟩ := h.items id row hold
    refine ⟨hid, fun j hj => ?_⟩
    obtain ⟨t, r, ht, htx, hpc⟩ := hauthor j hj
    obtain ⟨t', ht', -, htx', hpc'⟩ := committed_session (H := H) hs hm ht htx
    exact ⟨t', r, ht', htx', hpc'.trans hpc⟩
  rcases moves_tables hm with rfl | ⟨rfl, htx, rfl, reply, hreply⟩
  · exact hkeep hrow
  · rw [lookup_committed_items] at hrow
    split at hrow
    · next hid =>
      obtain ⟨v, hv, rfl⟩ := itemRow_eq.mp hrow
      rw [hv] at hid
      refine ⟨Option.some.inj hid, fun j hj => ?_⟩
      cases hj
      -- a session that commits with an item has inserted its record
      have hcreated := (item_eq.mp hv).2
      cases hpc : s.pc with
      | recorded v' r =>
        rw [hpc] at hcreated
        cases hcreated
        exact ⟨_, r, set_self hs, rfl, rfl⟩
      | inserted v' =>
        rw [hpc] at hreply
        cases hreply
      | _ =>
        rw [hpc] at hcreated
        cases hcreated
    · exact hkeep hrow

theorem Committed.stored_move (h : Committed H w) (hinv : Inv H D w) (hs : w.sessions[i]? = some s)
    (hm : Moves H D w i s a s' tables) (ht : (w.sessions.set i s')[j]? = some t)
    (htx : t.tx = .committed)
    (hpc : t.pc = .recorded v r) : tables.items.lookup v.id = some ⟨v, some j⟩ := by
  rcases set_cases ht with ⟨rfl, rfl⟩ | ⟨-, ht⟩
  · rcases moves_commits hm htx with ⟨htx, hsame, rfl⟩ | ⟨hactive, rfl, rfl⟩
    · exact h.stored j s v r hs htx (hsame.symm.trans hpc)
    · exact lookup_committed_item hactive hpc
  · exact hinv.items_move hs hm (h.stored j t v r ht htx hpc)

theorem Committed.replays_move (h : Committed H w) (hinv : Inv H D w) (hs : w.sessions[i]? = some s)
    (hm : Moves H D w i s a s' tables) (ht : (w.sessions.set i s')[j]? = some t)
    (htx : t.tx = .committed) (hpc : t.pc = .replaying v) : ∃ (l : Nat) (u : Session) (r : KeyRow),
      (w.sessions.set i s')[l]? = some u ∧ u.key H = t.key H ∧ u.tx = .committed ∧
      u.pc = .recorded v r := by
  have hauthor (hold : ∃ (l : Nat) (u : Session) (r : KeyRow), w.sessions[l]? = some u ∧
      u.key H = t.key H ∧ u.tx = .committed ∧ u.pc = .recorded v r) :
      ∃ (l : Nat) (u : Session) (r : KeyRow),
      (w.sessions.set i s')[l]? = some u ∧ u.key H = t.key H ∧ u.tx = .committed ∧
      u.pc = .recorded v r := by
    obtain ⟨l, u, r, hu, hkey, hutx, hupc⟩ := hold
    obtain ⟨u', hu', hkey', hutx', hupc'⟩ := committed_session hs hm hu hutx
    exact ⟨l, u', r, hu', hkey'.trans hkey, hutx', hupc'.trans hupc⟩
  refine hauthor ?_
  rcases set_cases ht with ⟨rfl, rfl⟩ | ⟨-, ht⟩
  · rcases moves_commits hm htx with ⟨htx, hsame, -⟩ | ⟨hactive, rfl, -⟩
    · obtain ⟨l, u, r, hu, hkey, hutx, hupc⟩ := h.replays j s v hs htx (hsame.symm.trans hpc)
      exact ⟨l, u, r, hu, hkey.trans (moves_key hm).symm, hutx, hupc⟩
    · -- the record that was found names its author
      obtain ⟨row, itemRow, hrow, hitem, rfl⟩ := (hinv.sees j s hs).replaying v hactive hpc
      obtain ⟨l, u, v', hu, hkey, hutx, hupc, -, hitem'⟩ := h.records _ row hrow
      rw [hitem] at hitem'
      cases hitem'
      exact ⟨l, u, row, hu, hkey, hutx, hupc⟩
  · exact h.replays j t v ht htx hpc

theorem Committed.call (h : Committed H w) (request : StoreRequest) (ctx : Option Context) :
    Committed H { w with sessions := w.sessions ++ [Session.new request ctx] } where
  records k row hrow := by
    obtain ⟨i, s, v, hs, hrest⟩ := h.records k row hrow
    exact ⟨i, s, v, snoc_of_some hs, hrest⟩
  items id row hrow := by
    obtain ⟨hid, hauthor⟩ := h.items id row hrow
    refine ⟨hid, fun i hi => ?_⟩
    obtain ⟨s, r, hs, hrest⟩ := hauthor i hi
    exact ⟨s, r, snoc_of_some hs, hrest⟩
  stored i s v r hs htx hpc := by
    rcases snoc_cases hs with ⟨-, rfl⟩ | hs
    · cases htx
    · exact h.stored i s v r hs htx hpc
  replays j t v ht htx hpc := by
    rcases snoc_cases ht with ⟨-, rfl⟩ | ht
    · cases htx
    · obtain ⟨i, s, r, hs, hrest⟩ := h.replays j t v ht htx hpc
      exact ⟨i, s, r, snoc_of_some hs, hrest⟩

theorem Committed.create (h : Committed H w) (hid : w.tables.items.lookup value.id = none) :
    Committed H { w with tables :=
      { w.tables with items := w.tables.items.insert value.id ⟨D.readBack value, none⟩ } } := by
  have hkeep (id : UUID) (row : ItemRow) (hrow : w.tables.items.lookup id = some row) :
      (w.tables.items.insert value.id ⟨D.readBack value, none⟩).lookup id = some row := by
    rw [AList.lookup_insert_ne]
    · exact hrow
    · rintro rfl
      rw [hid] at hrow
      cases hrow
  refine ⟨fun k row hrow => ?_, fun id row hrow => ?_, fun i s v r hs htx hpc => ?_, h.replays⟩
  · obtain ⟨i, s, v, hs, hkey, htx, hpc, hxmin, hitem⟩ := h.records k row hrow
    exact ⟨i, s, v, hs, hkey, htx, hpc, hxmin, hkeep _ _ hitem⟩
  · rw [AssocMap.lookup_insert_ite] at hrow
    split at hrow
    · next he =>
      cases hrow
      exact ⟨(D.id_readBack value).trans he.symm, nofun⟩
    · exact h.items id row hrow
  · exact hkeep _ _ (h.stored i s v r hs htx hpc)

theorem committed_step (h : Committed H w) (hinv : Inv H D w) (hstep : step H D w a = some w') :
    Committed H w' := by
  cases step_stepped H D hstep with
  | call => exact h.call _ _
  | tick => exact ⟨h.records, h.items, h.stored, h.replays⟩
  | create hid _ => exact h.create hid
  | move hs hm =>
    exact ⟨fun _ _ => h.records_move hinv hs hm, fun _ _ => h.items_move hs hm,
      fun _ _ _ _ => h.stored_move hinv hs hm, fun _ _ _ => h.replays_move hinv hs hm⟩

theorem committed_reachable (hr : Reaches (step H D) (World.init clock) w) :
    Inv H D w ∧ Committed H w :=
  hr.invariant (P := fun w => Inv H D w ∧ Committed H w)
    (fun _ _ _ h hs _ => ⟨inv_step h.1 hs, committed_step h.2 h.1 hs⟩)
    ⟨inv_start H D _ _, committed_init H clock⟩

-- ---------------------------------------------------------------------------
-- While a record stays
-- ---------------------------------------------------------------------------

/-- Since `w₀`, the transaction `i` has committed the record `row` of the
key `k`, with the item `v`. As long as the record is there, every other
transaction on the key that has committed since returns `v` as a replay. -/
structure Window (H : Hashes) (w₀ : World) (k : Digest) (row : KeyRow) (i : Nat)
    (v : Item) (w : World) :
    Prop where
  author : ∃ s, w.sessions[i]? = some s ∧ s.tx = .committed ∧ s.pc = .recorded v row ∧
    row.xmin = some i
  replies : w.tables.keys.lookup k = some row → ∀ (j : Nat) t reply, w.sessions[j]? = some t →
    t.key H = k →
    t.tx = .committed → t.pc.reply = some reply →
    (∀ t₀, w₀.sessions[j]? = some t₀ → t₀.tx ≠ .committed) → reply.1 = v ∧ (reply.2 = false → j = i)

theorem Window.not_recorded (h : Window H w₀ k row i v w) (hinv : Inv H D w)
    (hs : w.sessions[j]? = some s) (hactive : s.tx = .active) : s.pc ≠ .recorded v' row := by
  intro hpc
  obtain ⟨-, -, hxmin⟩ := (hinv.ok j s hs).row v' row hpc
  obtain ⟨author, hauthor, htx, -, hxmin'⟩ := h.author
  rw [hxmin] at hxmin'
  cases hxmin'
  rw [hs] at hauthor
  cases hauthor
  rw [hactive] at htx
  cases htx

theorem Window.lookup_move (h : Window H w₀ k row i v w) (hinv : Inv H D w)
    (hs : w.sessions[j]? = some s)
    (hm : Moves H D w j s a s' tables) (hrow : tables.keys.lookup k = some row) :
    w.tables.keys.lookup k = some row := by
  rcases moves_record hm hrow with hold | ⟨hrec, -, -, -⟩
  · exact hold
  · obtain ⟨hactive, v', hpc⟩ := record_eq.mp hrec
    exact absurd hpc (h.not_recorded hinv hs hactive)

theorem Window.author_move (h : Window H w₀ k row i v w) (hs : w.sessions[j]? = some s)
    (hm : Moves H D w j s a s' tables) :
    ∃ s₁, (w.sessions.set j s')[i]? = some s₁ ∧ s₁.tx = .committed ∧
      s₁.pc = .recorded v row ∧ row.xmin = some i := by
  obtain ⟨author, hauthor, htx, hpc, hxmin⟩ := h.author
  obtain ⟨author', hauthor', -, htx', hpc'⟩ := committed_session (H := H) hs hm hauthor htx
  exact ⟨author', hauthor', htx', hpc'.trans hpc, hxmin⟩

theorem Window.commit (h : Window H w₀ k row i v w) (hinv : Inv H D w) (hcom : Committed H w)
    (hs : w.sessions[j]? = some s) (hactive : s.tx = .active) (hkey : s.key H = k)
    (hreply : s.pc.reply = some reply) (hrow : w.tables.keys.lookup k = some row)
    (hrow' : (w.committed H j s).keys.lookup k = some row) :
    reply.1 = v ∧ (reply.2 = false → j = i) := by
  cases hpc : s.pc with
  | replaying v' =>
    rw [hpc] at hreply
    cases hreply
    obtain ⟨row', itemRow, hrow₁, hitem, rfl⟩ := (hinv.sees j s hs).replaying v' hactive hpc
    rw [hkey, hrow] at hrow₁
    cases hrow₁
    obtain ⟨l, u, v'', hu, -, -, hupc, hxmin, hitem'⟩ := hcom.records k row hrow
    obtain ⟨author, hauthor, -, hapc, hxmin'⟩ := h.author
    rw [hxmin] at hxmin'
    cases hxmin'
    rw [hu] at hauthor
    cases hauthor
    rw [hupc] at hapc
    cases hapc
    rw [hitem] at hitem'
    cases hitem'
    exact ⟨rfl, nofun⟩
  | recorded v' row' =>
    -- its own record would have replaced the one that stays
    have hrec : s.record = some row' := record_eq.mpr ⟨hactive, v', hpc⟩
    rw [lookup_committed_keys, if_pos ⟨by simp [hrec], hkey⟩, hrec] at hrow'
    cases hrow'
    exact absurd hpc (h.not_recorded hinv hs hactive)
  | _ =>
    rw [hpc] at hreply
    cases hreply

theorem Window.move (h : Window H w₀ k row i v w) (hinv : Inv H D w) (hcom : Committed H w)
    (hs : w.sessions[j]? = some s) (hm : Moves H D w j s a s' tables) :
    Window H w₀ k row i v ⟨tables, w.clock, w.sessions.set j s'⟩ where
  author := h.author_move hs hm
  replies hrow l t reply ht hkey htx hreply hnew := by
    have hold := h.lookup_move hinv hs hm hrow
    rcases set_cases ht with ⟨rfl, rfl⟩ | ⟨-, ht⟩
    · rcases moves_commits hm htx with ⟨htx, hsame, -⟩ | ⟨hactive, rfl, rfl⟩
      · exact h.replies hold l s reply hs ((moves_key hm).symm.trans hkey) htx (hsame ▸ hreply) hnew
      · exact h.commit hinv hcom hs hactive hkey hreply hold hrow
    · exact h.replies hold l t reply ht hkey htx hreply hnew

theorem window_step (h : Window H w₀ k row i v w) (hinv : Inv H D w) (hcom : Committed H w)
    (hstep : step H D w a = some w') : Window H w₀ k row i v w' := by
  cases step_stepped H D hstep with
  | call =>
    obtain ⟨author, hauthor, hrest⟩ := h.author
    refine ⟨⟨author, snoc_of_some hauthor, hrest⟩, fun hrow j t reply ht hkey htx hreply hnew => ?_⟩
    rcases snoc_cases ht with ⟨-, rfl⟩ | ht
    · cases htx
    · exact h.replies hrow j t reply ht hkey htx hreply hnew
  | tick => exact ⟨h.author, h.replies⟩
  | create _ _ => exact ⟨h.author, h.replies⟩
  | move hs hm => exact h.move hinv hcom hs hm

theorem window_run (h : Window H w₀ k row i v w) (hinv : Inv H D w) (hcom : Committed H w)
    (hr : Reaches (step H D) w w') : Inv H D w' ∧ Committed H w' ∧ Window H w₀ k row i v w' :=
  hr.invariant (P := fun w => Inv H D w ∧ Committed H w ∧ Window H w₀ k row i v w)
    (fun _ _ _ h hs _ => ⟨inv_step h.1 hs, committed_step h.2.1 h.1 hs,
      window_step h.2.2 h.1 h.2.1 hs⟩)
    ⟨hinv, hcom, h⟩

theorem window_open (hinv : Inv H D w) (hs : w.sessions[i]? = some s)
    (hpc : s.pc = .recorded v row) :
    Window H w (s.key H) row i v
      ⟨w.committed H i s, w.clock, w.sessions.set i { s with tx := .committed }⟩ where
  author := ⟨_, set_self hs, rfl, hpc, ((hinv.ok i s hs).row v row hpc).2.2⟩
  replies _ j t reply ht _ htx hreply hnew := by
    rcases set_cases ht with ⟨rfl, rfl⟩ | ⟨-, ht⟩
    · have hreply : s.pc.reply = some reply := hreply
      rw [hpc] at hreply
      cases hreply
      exact ⟨rfl, fun _ => rfl⟩
    · exact absurd htx (hnew t ht)

end

/-- In every run from an empty database, with any number of sessions and
any failures: a record's item was committed by the record's transaction. From
the commit of a record by `i` until it is deleted, no other transaction on
its key commits an item, and a transaction on the key that commits in this
time and reports success returns the record's item, as new only for `i`. A
lock id that is taken, by whatever key, only turns a call away, and a
replay repeats a commit on its own key. -/
theorem committed_at_most_once (H : Hashes) (D : Columns) (clock : Timestamp) (w : World)
    (hr : Reaches (step H D) (World.init clock) w) :
    (∀ k row, w.tables.keys.lookup k = some row → ∃ (i : Nat) (s : Session) (v : Item),
      w.sessions[i]? = some s ∧ s.key H = k ∧ s.tx = .committed ∧ row.xmin = some i ∧
        w.tables.items.lookup row.itemID = some ⟨v, some i⟩) ∧
    (∀ (i : Nat) (s : Session) (row : KeyRow) (w₁ w₂ : World), w.sessions[i]? = some s →
      s.record = some row → step H D w (.commit i) = some w₁ → Reaches (step H D) w₁ w₂ →
      w₂.tables.keys.lookup (s.key H) = some row →
      ∃ v, w₂.tables.items.lookup row.itemID = some ⟨v, some i⟩ ∧
        ∀ (j : Nat) (t : Session), w₂.sessions[j]? = some t → t.key H = s.key H →
          (∀ id itemRow, w₂.tables.items.lookup id = some itemRow → itemRow.xmin = some j →
            w.tables.items.lookup id = none → j = i) ∧
          (∀ v' replayed, t.outcome = some (.ok (v', replayed)) →
            (∀ t₀, w.sessions[j]? = some t₀ → t₀.tx ≠ .committed) →
            v' = v ∧ (replayed = false → j = i))) ∧
    (∀ (i j : Nat) (s t : Session), w.sessions[i]? = some s → w.sessions[j]? = some t → j ≠ i →
      s.pc = .begun → s.tx = .active → s.outcome = none →
      t.advisory H = some (advisoryLockID (s.key H)) →
      step H D w (.run i) = some (w.update i (s.returns (.error errIdempotencyInProgress)))) ∧
    (∀ (j : Nat) (t : Session) (v : Item), w.sessions[j]? = some t →
      t.outcome = some (.ok (v, true)) →
      ∃ (i : Nat) (s : Session), w.sessions[i]? = some s ∧ s.key H = t.key H ∧ s.tx = .committed ∧
        s.pc.reply = some (v, false)) := by
  obtain ⟨hinv, hcom⟩ := committed_reachable hr
  refine ⟨?_, ?_, ?_, ?_⟩
  · intro k row hrow
    obtain ⟨i, s, v, hs, hkey, htx, -, hxmin, hitem⟩ := hcom.records k row hrow
    exact ⟨i, s, v, hs, hkey, htx, hxmin, hitem⟩
  · intro i s row w₁ w₂ hs hrec hstep hr₂ hrow
    obtain ⟨-, v, hpc⟩ := record_eq.mp hrec
    have hr₀ : Reaches (step H D) w w₂ := Run.trans (.tail .refl hstep trivial) hr₂
    have hw₁ := step_commit hstep hs
    subst hw₁
    obtain ⟨hinv₂, hcom₂, hwin⟩ := window_run (window_open hinv hs hpc) (inv_step hinv hstep)
      (committed_step hcom hinv hstep) hr₂
    obtain ⟨author, hauthor, hatx, hapc, -⟩ := hwin.author
    have hid := ((hinv.ok i s hs).row v row hpc).1
    refine ⟨v, hid ▸ hcom₂.stored i author v row hauthor hatx hapc, ?_⟩
    intro j t ht hkey
    constructor
    · intro id itemRow hitem hxmin hnew
      obtain ⟨hid', hby⟩ := hcom₂.items id itemRow hitem
      obtain ⟨t', r, ht', htx, htpc⟩ := hby j hxmin
      rw [ht] at ht'
      cases ht'
      refine (hwin.replies hrow j t (itemRow.value, false) ht hkey htx (by rw [htpc]; rfl) ?_).2 rfl
      -- had `j` been committed at `w`, its item would have been there
      intro t₀ ht₀ htx₀
      obtain ⟨t', ht', -, hpc'⟩ := committed_session_run ht₀ htx₀ hr₀
      rw [ht] at ht'
      cases ht'
      have hstored := hcom.stored j t₀ itemRow.value r ht₀ htx₀ (hpc'.symm.trans htpc)
      rw [hid', hnew] at hstored
      cases hstored
    · intro v' replayed hout hnew
      obtain ⟨htx, hreply⟩ := (hinv₂.ok j t ht).outcome _ hout
      exact hwin.replies hrow j t _ ht hkey htx hreply hnew
  · intro i j s t hs ht hne hpc htx hout hid
    have hother : anyOther w.sessions i
        (fun t => decide (t.advisory H = some (advisoryLockID (s.key H)))) = true :=
      anyOther_iff.mpr ⟨j, t, hne, ht, decide_eq_true hid⟩
    simp [step, hs, hout, htx, hpc, PC.txState, Session.run, hother]
  · intro j t v ht hout
    obtain ⟨htx, hreply⟩ := (hinv.ok j t ht).outcome _ hout
    have hpc : t.pc = .replaying v := by
      cases hp : t.pc <;> rw [hp] at hreply <;> cases hreply
      rfl
    obtain ⟨i, s, r, hs, hkey, hstx, hspc⟩ := hcom.replays j t v ht htx hpc
    exact ⟨i, s, hs, hkey, hstx, by rw [hspc]; rfl⟩

def recordingActions : List Action :=
  callActions (sampleRequest (str "key") 1) 0 ∅ ++ [.run 0, .run 0, .run 0]

/-- The first client is told that its commit failed; the second call
replays what it committed. -/
def replayingActions : List Action :=
  [.fail 0 (.sentinel .deadlineExceeded), .release 0] ++
    callActions (sampleRequest (str "key") 2) 1 ∅ ++ [.run 1, .run 1, .run 1,
    .commit 1, .acknowledge 1]

theorem getElem?_of_map {f : α → β} {l : List α} {n : Nat} (h : l.map f = l')
    (hn : l'[n]? = some b) :
    ∃ a, l[n]? = some a ∧ f a = b := by
  rw [← h, List.getElem?_map] at hn
  exact Option.map_eq_some_iff.mp hn

theorem committed_at_most_once_lost_reply :
    ∃ w w₁ w₂ v, exec (step Hashes.go .microseconds) (World.init 0) recordingActions = some w ∧
      step Hashes.go .microseconds w (.commit 0) = some w₁ ∧
      exec (step Hashes.go .microseconds) w₁ replayingActions = some w₂ ∧
      w₂.sessions.map (fun s => s.outcome.map Except.toOption) =
        [some none, some (some (v, true))] ∧
      w₂.tables.items.lookup (sampleItem 1).id = some ⟨v, some 0⟩ := by
  have hrun : (exec (step Hashes.go .microseconds) (World.init 0) recordingActions).bind (fun w =>
      (step Hashes.go .microseconds w (.commit 0)).bind fun w₁ =>
        (exec (step Hashes.go .microseconds) w₁ replayingActions).map fun w₂ =>
          ((w.sessions.map fun s => (s.request, s.record)),
            (w₂.sessions.map fun s => (s.request, s.outcome.map Except.toOption)),
            w₂.tables.keys.lookup (keyHash Hashes.go (sampleRequest (str "key") 1)))) =
      some ([(sampleRequest (str "key") 1,
          some ⟨List.replicate 32 0, (sampleItem 1).id, retention, some 0⟩)],
        [(sampleRequest (str "key") 1, some none),
          (sampleRequest (str "key") 2,
          some (some (Columns.microseconds.readBack (sampleItem 1), true)))],
        some ⟨List.replicate 32 0, (sampleItem 1).id, retention, some 0⟩) := by
    set_option synthInstance.maxSize 1000 in decide +kernel
  obtain ⟨w, hw, hrun⟩ := Option.bind_eq_some_iff.mp hrun
  obtain ⟨w₁, hw₁, hrun⟩ := Option.bind_eq_some_iff.mp hrun
  obtain ⟨w₂, hw₂, hrun⟩ := Option.map_eq_some_iff.mp hrun
  simp only [Prod.mk.injEq] at hrun
  obtain ⟨hbefore, hafter, hrow⟩ := hrun
  obtain ⟨s, hs, hsession⟩ := getElem?_of_map (n := 0) hbefore rfl
  obtain ⟨t, ht, hsecond⟩ := getElem?_of_map (n := 1) hafter rfl
  obtain ⟨hrequest, hrecord⟩ := Prod.mk.inj hsession
  obtain ⟨hrequest', houtcome⟩ := Prod.mk.inj hsecond
  have hkey : s.key Hashes.go = keyHash Hashes.go (sampleRequest (str "key") 1) := by
    rw [Session.key, hrequest]
  have hkey' : t.key Hashes.go = s.key Hashes.go := by
    rw [hkey, Session.key, hrequest']
    rfl
  have hout : t.outcome = some (.ok (Columns.microseconds.readBack (sampleItem 1), true)) := by
    obtain ⟨x, hx, hvalue⟩ := Option.map_eq_some_iff.mp houtcome
    cases x with
    | error err => cases hvalue
    | ok reply =>
      cases hvalue
      exact hx
  have hnew : w.sessions[1]? = none := by
    have hlen := congrArg List.length hbefore
    rw [List.length_map] at hlen
    exact List.getElem?_eq_none (by rw [hlen]; decide)
  obtain ⟨v, hitem, hall⟩ := (committed_at_most_once Hashes.go .microseconds 0 w
    (exec_reaches recordingActions hw)).2.1 0 s _ w₁ w₂ hs hrecord hw₁
      (exec_reaches replayingActions hw₂)
    (by rw [hkey, hrow])
  obtain ⟨hv, -⟩ := (hall 1 t ht hkey').2 _ _ hout fun t₀ ht₀ => by
    rw [hnew] at ht₀
    cases ht₀
  refine ⟨w, w₁, w₂, v, hw, hw₁, hw₂, ?_, hitem⟩
  have houtcomes := congrArg (List.map Prod.snd) hafter
  rw [List.map_map] at houtcomes
  rw [← hv]
  exact houtcomes

end GoClean.Postgres

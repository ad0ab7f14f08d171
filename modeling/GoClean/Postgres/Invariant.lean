import GoClean.Postgres.Machine

/-!
# Invariants of the PostgreSQL store

What holds of a session by itself (`Session.Ok`), what a step lets it
acquire (`moves_locks`, `moves_advisory`, `moves_item`), and what holds
between the sessions and the tables (`Inv`). The advisory lock keeps the
record of a key still while its session looks and inserts; the row lock
keeps a record that was found from being deleted.
-/

namespace GoClean.Postgres

open Go Threads Transition

def PC.creates : PC → Bool
  | .absent | .inserted _ | .recorded .. => true
  | _ => false

def PC.looks : PC → Bool
  | .looking _ | .found _ | .replaying _ => true
  | _ => false

def PC.uncleaned : PC → Bool
  | .start | .ready | .begun | .locked => true
  | _ => false

structure Session.Ok (H : Hashes) (D : Columns) (i : Nat) (s : Session) : Prop where
  idle : s.tx = .idle ↔ s.pc.txState = .idle
  ended : s.tx = .committed → ∃ reply, s.pc.reply = some reply
  released : s.released = true → s.tx = .committed ∨ s.tx = .aborted
  untaken : s.pc.uncleaned = true → s.taken = ∅
  created : ∀ v, s.pc.created = some v → v = D.readBack s.request.value
  row : ∀ v row, s.pc = .recorded v row → row.itemID = v.id ∧
    row.requestHash = (requestHash s.request.fingerprint).toList ∧ row.xmin = some i
  looked : s.pc.looks = true → s.key H ∉ s.taken
  outcome : ∀ x, s.outcome = some (.ok x) → s.tx = .committed ∧ s.pc.reply = some x

section
variable {H : Hashes} {D : Columns} {w w' : World} {i j : Nat} {s s' t : Session}

theorem Session.Ok.new (request : StoreRequest) (ctx : Option Context) :
    (Session.new request ctx).Ok H D i where
  idle := by simp [Session.new, PC.txState]
  ended h := by cases h
  released h := by cases h
  untaken _ := rfl
  created v h := by cases h
  row v row h := by cases h
  looked h := by cases h
  outcome x h := by cases h

theorem Session.Ok.returns_error (h : s.Ok H D i) (err : Error) :
    (s.returns (.error err)).Ok H D i where
  idle := h.idle
  ended := h.ended
  released := h.released
  untaken := h.untaken
  created := h.created
  row := h.row
  looked := h.looked
  outcome x hx := by cases hx

theorem Session.Ok.goto {pc : PC} (h : s.Ok H D i) (hout : s.outcome = none)
    (htx : s.tx = pc.txState) (hpc : pc.uncleaned = true → s.pc.uncleaned = true)
    (hcreated : ∀ v, pc.created = some v → v = D.readBack s.request.value)
    (hrow : ∀ v row, pc = .recorded v row → row.itemID = v.id ∧
      row.requestHash = (requestHash s.request.fingerprint).toList ∧ row.xmin = some i)
    (hlooked : pc.looks = true → s.key H ∉ s.taken) : (s.goto pc).Ok H D i where
  idle := by
    show s.tx = .idle ↔ pc.txState = .idle
    rw [htx]
  ended hc := by
    have hc : s.tx = .committed := hc
    rw [htx] at hc
    cases pc <;> cases hc
  released := h.released
  untaken hu := h.untaken (hpc hu)
  created := hcreated
  row := hrow
  looked := hlooked
  outcome x hx := by
    have hx : s.outcome = some (.ok x) := hx
    rw [hout] at hx
    cases hx

theorem runs_ok (h : Runs H D w i s s') (hok : s.Ok H D i) (hout : s.outcome = none)
    (htx : s.tx = s.pc.txState) : s'.Ok H D i := by
  cases h with
  | refused _ _ => exact hok.returns_error _
  | enter hpc _ =>
    exact hok.goto hout (by rw [htx, hpc]; rfl) (fun _ => by rw [hpc]; rfl) nofun nofun nofun
  | begin hpc =>
    have huntaken : s.taken = ∅ := hok.untaken (by rw [hpc]; rfl)
    refine ⟨by simp [PC.txState], nofun, fun h => ?_, fun _ => huntaken, nofun, nofun, nofun,
      fun x hx => ?_⟩
    · have := hok.released h
      rw [htx, hpc] at this
      simp [PC.txState] at this
    · rw [show s.outcome = some (.ok x) from hx] at hout
      cases hout
  | inProgress _ _ => exact hok.returns_error _
  | lock hpc _ =>
    exact hok.goto hout (by rw [htx, hpc]; rfl) (fun _ => by rw [hpc]; rfl) nofun nofun nofun
  | unseen hpc _ => exact hok.goto hout (by rw [htx, hpc]; rfl) nofun nofun nofun nofun
  | seen hpc hmem _ => exact hok.goto hout (by rw [htx, hpc]; rfl) nofun nofun nofun fun _ => hmem
  | gone hpc _ => exact hok.goto hout (by rw [htx, hpc]; rfl) nofun nofun nofun nofun
  | @grab row hpc _ _ =>
    have hfound : (s.goto (.found row)).Ok H D i :=
      hok.goto hout (by rw [htx, hpc]; rfl) nofun nofun nofun
      fun _ => hok.looked (by rw [hpc]; rfl)
    refine { hfound with outcome := fun x hx => ?_ }
    obtain ⟨err, -, herr⟩ := Option.map_eq_some_iff.mp hx
    cases herr
  | replay hpc _ =>
    exact hok.goto hout (by rw [htx, hpc]; rfl) nofun nofun nofun fun _ =>
      hok.looked (by rw [hpc]; rfl)
  | missing _ _ => exact hok.returns_error _
  | duplicate _ => exact hok.returns_error _
  | insert hpc _ _ =>
    exact hok.goto hout (by rw [htx, hpc]; rfl) nofun
      (fun v hv => (Option.some.inj hv).symm) nofun nofun
  | record hpc _ _ =>
    refine hok.goto hout (by rw [htx, hpc]; rfl) nofun (fun v hv => ?_) (fun v row h => ?_) nofun
    · exact hok.created v (by rw [hpc]; exact hv)
    · cases h
      exact ⟨rfl, rfl, rfl⟩

theorem Session.Ok.close {tx : TxState} {released : Bool} (h : s.Ok H D i) (hidle : s.tx ≠ .idle)
    (htx : tx ≠ .idle) (hcommit : tx = .committed → ∃ reply, s.pc.reply = some reply)
    (hreleased : released = true → tx = .committed ∨ tx = .aborted)
    (houtcome : ∀ x, s.outcome = some (.ok x) → tx = .committed) :
    Session.Ok H D i { s with tx := tx, released := released } where
  idle := ⟨fun h => absurd h htx, fun hpc => absurd (h.idle.mpr hpc) hidle⟩
  ended := hcommit
  released := hreleased
  untaken := h.untaken
  created := h.created
  row := h.row
  looked := h.looked
  outcome x hx := ⟨houtcome x hx, (h.outcome x hx).2⟩

theorem Session.Ok.active_outcome (h : s.Ok H D i) (htx : s.tx = .active) (x : Item × Bool) :
    s.outcome ≠ some (.ok x) := by
  intro hx
  have := (h.outcome x hx).1
  rw [htx] at this
  cases this

theorem Session.Ok.unreleased (h : s.Ok H D i) (htx : s.tx = .active) : s.released = false := by
  rw [← Bool.not_eq_true]
  intro hr
  have := h.released hr
  simp [htx] at this

theorem moves_ok (h : Moves H D w i s a s' tables) (hok : s.Ok H D i) : s'.Ok H D i := by
  cases h with
  | run hout htx hrun => exact runs_ok hrun hok hout htx
  | clean hout htx hpc _ =>
    refine ⟨?_, fun h => ?_, hok.released, nofun, nofun, nofun, nofun, fun x hx => ?_⟩
    · simp [htx, PC.txState]
    · rw [show s.tx = .committed from h] at htx
      cases htx
    · exact absurd hx (hok.active_outcome htx x)
  | fail _ _ _ => exact hok.returns_error _
  | commit htx hreply =>
    refine hok.close (by simp [htx]) (by simp) (fun _ => ⟨_, hreply⟩)
      (fun _ => .inl rfl) fun _ _ => rfl
  | rollback htx =>
    refine hok.close (by simp [htx]) (by simp) nofun (fun _ => .inr rfl) fun x hx => ?_
    exact absurd hx (hok.active_outcome htx x)
  | release htx =>
    have hidle : s.tx ≠ .idle := by rcases htx with h | h <;> simp [h]
    exact hok.close hidle hidle hok.ended (fun _ => htx) fun x hx => (hok.outcome x hx).1
  | acknowledge _ htx hreply =>
    refine ⟨hok.idle, hok.ended, hok.released, hok.untaken, hok.created, hok.row,
      hok.looked, fun x hx => ?_⟩
    cases hx
    exact ⟨htx, hreply⟩

-- ---------------------------------------------------------------------------
-- What a step acquires
-- ---------------------------------------------------------------------------

theorem lockedByOther_eq_false : w.lockedByOther H i k = false ↔
    ∀ (j : Nat) (t : Session), j ≠ i → w.sessions[j]? = some t → k ∉ t.locks H := by
  simp only [World.lockedByOther, anyOther_eq_false, decide_eq_false_iff_not]

theorem isCleanup_mem (h : isCleanup (candidates keys now locked) taken = true) (hk : k ∈ taken) :
    locked k = false ∧ ∃ row, keys.lookup k = some row ∧ row.expiresAt ≤ now := by
  simp only [isCleanup, Bool.and_eq_true, decide_eq_true_eq] at h
  obtain ⟨e, he, rfl⟩ := List.mem_map.mp (List.mem_toFinset.mp (h.1.1 hk))
  obtain ⟨hmem, hcond⟩ := List.mem_filter.mp he
  simp only [Bool.and_eq_true, decide_eq_true_eq, Bool.not_eq_true'] at hcond
  exact ⟨hcond.2, e.2, AssocMap.lookup_eq_some_iff.mpr hmem, hcond.1⟩

theorem mem_locks :
    k ∈ s.locks H ↔ s.tx = .active ∧ (k ∈ s.taken ∨ s.pc.holdsRow = true ∧ k = s.key H) := by
  unfold Session.locks
  split
  · next htx =>
    split
    · next hpc => simp [htx, hpc, or_comm]
    · next hpc => simp [htx, hpc]
  · next htx => simp [htx]

theorem runs_taken (h : Runs H D w i s s') : s'.taken = s.taken ∧ s'.request = s.request := by
  cases h <;> exact ⟨rfl, rfl⟩

theorem runs_tx (h : Runs H D w i s s') : s'.tx = s.tx ∨ s'.tx = .active := by
  cases h with
  | begin _ => exact .inr rfl
  | _ => exact .inl rfl

theorem moves_request (h : Moves H D w i s a s' tables) : s'.request = s.request := by
  cases h with
  | run _ _ hrun => exact (runs_taken hrun).2
  | _ => rfl

theorem moves_key (h : Moves H D w i s a s' tables) : s'.key H = s.key H := by
  rw [Session.key, Session.key, moves_request h]

/-- A step locks rows that were not locked: those its cleanup takes, or
the one its lookup has found. -/
theorem moves_locks (h : Moves H D w i s a s' tables) (hok : s.Ok H D i) (hk : k ∈ s'.locks H) :
    k ∈ s.locks H ∨ w.lockedByOther H i k = false ∧
      ((∃ taken, a = .cleanup i taken ∧ k ∈ taken) ∨
        s.tx = .active ∧ s.pc.pastLock = true ∧ k = s.key H) := by
  rw [mem_locks] at hk ⊢
  obtain ⟨hactive, hk⟩ := hk
  cases h with
  | run hout htx hrun =>
    rw [(runs_taken hrun).1] at hk
    rcases hk with hk | ⟨hrow, rfl⟩
    · refine .inl ⟨?_, .inl hk⟩
      cases hrun with
      | begin hpc =>
        rw [hok.untaken (by rw [hpc]; rfl)] at hk
        simp at hk
      | _ => exact hactive
    · cases hrun with
      | grab hpc hfree _ => exact .inr ⟨hfree, .inr ⟨hactive, by rw [hpc]; rfl, rfl⟩⟩
      | replay hpc _ => exact .inl ⟨hactive, .inr ⟨by rw [hpc]; rfl, rfl⟩⟩
      | refused _ _ => exact .inl ⟨hactive, .inr ⟨hrow, rfl⟩⟩
      | inProgress _ _ => exact .inl ⟨hactive, .inr ⟨hrow, rfl⟩⟩
      | missing _ _ => exact .inl ⟨hactive, .inr ⟨hrow, rfl⟩⟩
      | duplicate _ => exact .inl ⟨hactive, .inr ⟨hrow, rfl⟩⟩
      | _ => cases hrow
  | clean _ htx _ hclean =>
    rcases hk with hk | ⟨hrow, -⟩
    · exact .inr ⟨(isCleanup_mem hclean hk).1, .inl ⟨_, rfl, hk⟩⟩
    · cases hrow
  | fail _ _ _ => exact .inl ⟨hactive, hk⟩
  | commit _ _ => cases hactive
  | rollback _ => cases hactive
  | release _ => exact .inl ⟨hactive, hk⟩
  | acknowledge _ _ _ => exact .inl ⟨hactive, hk⟩

theorem moves_advisory {id : Nat} (h : Moves H D w i s a s' tables)
    (hid : s'.advisory H = some id) :
    s.advisory H = some id ∨
      ∀ (j : Nat) (t : Session), j ≠ i → w.sessions[j]? = some t → t.advisory H ≠ some id := by
  unfold Session.advisory at hid ⊢
  rw [moves_key h] at hid
  cases h with
  | run _ _ hrun =>
    cases hrun with
    | lock hpc hfree =>
      have hid : id = advisoryLockID (s.key H) := by
        split at hid
        · exact (Option.some.inj hid).symm
        · cases hid
      exact .inr fun j t hne ht => hid ▸ hfree j t hne ht
    | _ => simp_all [Session.goto, Session.returns, PC.pastLock]
  | clean _ _ hpc _ =>
    rw [hpc]
    exact .inl hid
  | release _ => simp at hid
  | _ => exact .inl hid

theorem item_eq : s.item = some v ↔ s.tx = .active ∧ s.pc.created = some v := by
  unfold Session.item
  split
  · next htx => simp [htx]
  · next htx => simp [htx]

theorem record_eq : s.record = some row ↔ s.tx = .active ∧ ∃ v, s.pc = .recorded v row := by
  unfold Session.record
  split
  · next htx => cases hpc : s.pc <;> simp [htx, PC.row]
  · next htx => simp [htx]

theorem moves_item (h : Moves H D w i s a s' tables) (hv : s'.item = some v) :
    s.item = some v ∨ w.itemPendingByOther i v.id = false ∧ w.tables.items.lookup v.id = none := by
  rw [item_eq] at hv ⊢
  obtain ⟨hactive, hv⟩ := hv
  cases h with
  | run _ htx hrun =>
    cases hrun with
    | insert hpc hfree hid =>
      cases hv
      rw [D.id_readBack]
      exact .inr ⟨hfree, hid⟩
    | record hpc _ _ =>
      rw [hpc]
      exact .inl ⟨hactive, hv⟩
    | refused _ _ => exact .inl ⟨hactive, hv⟩
    | inProgress _ _ => exact .inl ⟨hactive, hv⟩
    | missing _ _ => exact .inl ⟨hactive, hv⟩
    | duplicate _ => exact .inl ⟨hactive, hv⟩
    | _ => cases hv
  | clean _ _ _ _ => cases hv
  | commit _ _ => cases hactive
  | rollback _ => cases hactive
  | _ => exact .inl ⟨hactive, hv⟩

-- ---------------------------------------------------------------------------
-- What a commit does
-- ---------------------------------------------------------------------------

theorem itemRow_eq : s.itemRow i = some row ↔ ∃ v, s.item = some v ∧ row = ⟨v, some i⟩ := by
  simp [Session.itemRow, eq_comm]

theorem lookup_committed_items {id : UUID} : (w.committed H i s).items.lookup id =
    if s.item.map Item.id = some id then s.itemRow i else w.tables.items.lookup id := by
  unfold World.committed Tables.apply Session.itemRow
  cases hitem : s.item with
  | none => rfl
  | some v =>
    simp only [Option.map_some, AssocMap.lookup_insert_ite, Option.some.injEq]
    by_cases he : id = v.id
    · simp [he]
    · simp [he, Ne.symm he]

theorem lookup_committed_keys : (w.committed H i s).keys.lookup k =
    if s.record.isSome ∧ s.key H = k then s.record
    else if k ∈ s.deletes then none else w.tables.keys.lookup k := by
  have hkept : (w.tables.keys.filter fun k _ => decide (k ∉ s.deletes)).lookup k =
      if k ∈ s.deletes then none else w.tables.keys.lookup k := by
    rw [AssocMap.lookup_filter]
    by_cases hk : k ∈ s.deletes <;> cases w.tables.keys.lookup k <;> simp [hk]
  unfold World.committed Tables.apply
  cases hrec : s.record with
  | none =>
    simp only [Option.map_none, Option.isSome_none, Bool.false_eq_true, false_and, if_false]
    exact hkept
  | some row =>
    simp only [Option.map_some, AssocMap.lookup_insert_ite, Option.isSome_some, true_and]
    by_cases he : k = s.key H
    · simp [he]
    · rw [if_neg he, if_neg (Ne.symm he), hkept]

theorem committed_key_cases (hrow : (w.committed H i s).keys.lookup k = some row) :
    s.record = some row ∧ s.key H = k ∨ w.tables.keys.lookup k = some row := by
  rw [lookup_committed_keys] at hrow
  split at hrow
  · next hrec => exact .inl ⟨hrow, hrec.2⟩
  · split at hrow
    · cases hrow
    · exact .inr hrow

theorem lookup_committed_item (htx : s.tx = .active) (hpc : s.pc = .recorded v r) :
    (w.committed H i s).items.lookup v.id = some ⟨v, some i⟩ := by
  have hitem : s.item = some v := item_eq.mpr ⟨htx, by rw [hpc]; rfl⟩
  rw [lookup_committed_items, if_pos (by simp [hitem])]
  simp [Session.itemRow, hitem]

theorem mem_deletes : k ∈ s.deletes ↔ s.tx = .active ∧ k ∈ s.taken := by
  unfold Session.deletes
  split
  · next htx => simp [htx]
  · next htx => simp [htx]

theorem deletes_locked (hk : k ∈ s.deletes) : k ∈ s.locks H := by
  rw [mem_deletes] at hk
  exact mem_locks.mpr ⟨hk.1, .inl hk.2⟩

end

-- ---------------------------------------------------------------------------
-- Sessions and tables
-- ---------------------------------------------------------------------------

structure Session.Sees (H : Hashes) (tables : Tables) (s : Session) : Prop where
  unseen : s.tx = .active → s.pc.creates = true →
    s.key H ∈ s.taken ∨ tables.keys.lookup (s.key H) = none
  looking : ∀ row, s.tx = .active → s.pc = .looking row →
    tables.keys.lookup (s.key H) = some row ∨ tables.keys.lookup (s.key H) = none
  found : ∀ row, s.tx = .active → s.pc = .found row → tables.keys.lookup (s.key H) = some row
  replaying : ∀ v, s.tx = .active → s.pc = .replaying v → ∃ row itemRow,
    tables.keys.lookup (s.key H) = some row ∧ tables.items.lookup row.itemID = some itemRow ∧
      itemRow.value = v

structure Inv (H : Hashes) (D : Columns) (w : World) : Prop where
  ok : ∀ (i : Nat) s, w.sessions[i]? = some s → s.Ok H D i
  advisory : Exclusive (Session.advisory H) w.sessions
  locks : Apart (fun s k => k ∈ s.locks H) w.sessions
  ids : Exclusive (fun s => s.item.map Item.id) w.sessions
  /-- An id inserted and not committed is not in the table. -/
  fresh : ∀ (i : Nat) s v, w.sessions[i]? = some s → s.item = some v →
    w.tables.items.lookup v.id = none
  sees : ∀ (i : Nat) s, w.sessions[i]? = some s → s.Sees H w.tables

section
variable {H : Hashes} {D : Columns} {w w' : World} {i j : Nat} {s s' t : Session}
    {tables tables' : Tables}

theorem Session.Sees.of_inactive (h : s.tx ≠ .active) : s.Sees H tables :=
  ⟨fun ha => absurd ha h, fun _ ha => absurd ha h, fun _ ha => absurd ha h, fun _ ha => absurd ha h⟩

theorem Session.Sees.of_pc (hcreates : s.pc.creates = false) (hlooks : s.pc.looks = false) :
    s.Sees H tables where
  unseen _ h := by
    rw [hcreates] at h
    cases h
  looking row _ h := by
    rw [h] at hlooks
    cases hlooks
  found row _ h := by
    rw [h] at hlooks
    cases hlooks
  replaying v _ h := by
    rw [h] at hlooks
    cases hlooks

theorem Session.Sees.of_creates (hcreates : s.pc.creates = true)
    (h : s.key H ∈ s.taken ∨ tables.keys.lookup (s.key H) = none) : s.Sees H tables where
  unseen _ _ := h
  looking row _ hpc := by
    rw [hpc] at hcreates
    cases hcreates
  found row _ hpc := by
    rw [hpc] at hcreates
    cases hcreates
  replaying v _ hpc := by
    rw [hpc] at hcreates
    cases hcreates

theorem runs_sees (h : Runs H D w i s s') (htx : s.tx = s.pc.txState) (hsees : s.Sees H w.tables) :
    s'.Sees H w.tables := by
  cases h with
  | refused _ _ => exact ⟨hsees.unseen, hsees.looking, hsees.found, hsees.replaying⟩
  | enter _ _ => exact .of_pc rfl rfl
  | begin _ => exact .of_pc rfl rfl
  | inProgress _ _ => exact ⟨hsees.unseen, hsees.looking, hsees.found, hsees.replaying⟩
  | lock _ _ => exact .of_pc rfl rfl
  | unseen _ h => exact .of_creates rfl h
  | seen _ _ hrow =>
    refine ⟨nofun, fun row _ hpc => ?_, nofun, nofun⟩
    cases hpc
    exact .inl hrow
  | gone hpc hne =>
    have htx : s.tx = .active := by rw [htx, hpc]; rfl
    rcases hsees.looking _ htx hpc with h | h
    · exact absurd h hne
    · exact .of_creates rfl (.inr h)
  | grab _ _ hrow =>
    refine ⟨nofun, nofun, fun row _ hpc => ?_, nofun⟩
    cases hpc
    exact hrow
  | replay hpc hitem =>
    refine ⟨nofun, nofun, nofun, fun v hactive hpc' => ?_⟩
    cases hpc'
    exact ⟨_, _, hsees.found _ hactive hpc, hitem, rfl⟩
  | missing _ _ => exact ⟨hsees.unseen, hsees.looking, hsees.found, hsees.replaying⟩
  | duplicate _ => exact ⟨hsees.unseen, hsees.looking, hsees.found, hsees.replaying⟩
  | insert hpc _ _ =>
    have htx : s.tx = .active := by rw [htx, hpc]; rfl
    exact .of_creates rfl (hsees.unseen htx (by rw [hpc]; rfl))
  | record _ _ h => exact .of_creates rfl h

theorem moves_sees (h : Moves H D w i s a s' tables) (hsees : s.Sees H w.tables) :
    s'.Sees H tables := by
  cases h with
  | run _ htx hrun => exact runs_sees hrun htx hsees
  | clean _ _ _ _ => exact .of_pc rfl rfl
  | commit _ _ => exact .of_inactive nofun
  | rollback _ => exact .of_inactive nofun
  | _ => exact ⟨hsees.unseen, hsees.looking, hsees.found, hsees.replaying⟩

/-- Sight survives when rows that are locked stay, and others at most
disappear. -/
theorem Session.Sees.transfer (h : t.Sees H tables)
    (hkeys : t.tx = .active → t.pc.pastLock = true →
      tables'.keys.lookup (t.key H) = tables.keys.lookup (t.key H) ∨
        t.pc.holdsRow = false ∧ tables'.keys.lookup (t.key H) = none)
    (hitems : ∀ id row, tables.items.lookup id = some row → tables'.items.lookup id = some row) :
    t.Sees H tables' where
  unseen htx hpc := by
    have hpast : t.pc.pastLock = true := by
      cases hp : t.pc <;> rw [hp] at hpc <;> first | rfl | cases hpc
    rcases hkeys htx hpast with he | ⟨-, he⟩
    · rw [he]
      exact h.unseen htx hpc
    · exact .inr he
  looking row htx hpc := by
    rcases hkeys htx (by rw [hpc]; rfl) with he | ⟨-, he⟩
    · rw [he]
      exact h.looking row htx hpc
    · exact .inr he
  found row htx hpc := by
    rcases hkeys htx (by rw [hpc]; rfl) with he | ⟨hno, -⟩
    · rw [he]
      exact h.found row htx hpc
    · rw [hpc] at hno
      cases hno
  replaying v htx hpc := by
    obtain ⟨row, itemRow, hrow, hitem, hv⟩ := h.replaying v htx hpc
    rcases hkeys htx (by rw [hpc]; rfl) with he | ⟨hno, -⟩
    · exact ⟨row, itemRow, he.trans hrow, hitems _ _ hitem, hv⟩
    · rw [hpc] at hno
      cases hno

theorem Session.Ok.advisory_eq (h : s.Ok H D i) (htx : s.tx = .active)
    (hpc : s.pc.pastLock = true) :
    s.advisory H = some (advisoryLockID (s.key H)) := by
  simp [Session.advisory, hpc, h.unreleased htx]

theorem Inv.key_ne (h : Inv H D w) (hs : w.sessions[i]? = some s) (ht : w.sessions[j]? = some t)
    (hne : j ≠ i) (hstx : s.tx = .active) (hspc : s.pc.pastLock = true) (httx : t.tx = .active)
    (htpc : t.pc.pastLock = true) : s.key H ≠ t.key H := by
  intro he
  have hsid := (h.ok i s hs).advisory_eq hstx hspc
  have htid := (h.ok j t ht).advisory_eq httx htpc
  rw [← he] at htid
  exact hne (h.advisory j i t s _ ht hs htid hsid)

theorem Inv.committed_keys (h : Inv H D w) (hs : w.sessions[i]? = some s)
    (ht : w.sessions[j]? = some t)
    (hne : j ≠ i) (httx : t.tx = .active) (htpc : t.pc.pastLock = true) :
    (w.committed H i s).keys.lookup (t.key H) = w.tables.keys.lookup (t.key H) ∨
      t.pc.holdsRow = false ∧ (w.committed H i s).keys.lookup (t.key H) = none := by
  rw [lookup_committed_keys]
  split
  · next hrec =>
    obtain ⟨row, hrow⟩ := Option.isSome_iff_exists.mp hrec.1
    obtain ⟨hstx, v, hpc⟩ := record_eq.mp hrow
    exact absurd hrec.2 (h.key_ne hs ht hne hstx (by rw [hpc]; rfl) httx htpc)
  · split
    · next hdel =>
      refine .inr ⟨?_, rfl⟩
      by_contra hholds
      have hmine : t.key H ∈ t.locks H := mem_locks.mpr ⟨httx, .inr ⟨by simpa using hholds, rfl⟩⟩
      exact hne (h.locks j i t s _ ht hs hmine (deletes_locked hdel))
    · exact .inl rfl

theorem Inv.committed_items (h : Inv H D w) (hs : w.sessions[i]? = some s) {id : UUID}
    (hrow : w.tables.items.lookup id = some row) :
    (w.committed H i s).items.lookup id = some row := by
  rw [lookup_committed_items]
  split
  · next hid =>
    obtain ⟨v, hv, rfl⟩ := Option.map_eq_some_iff.mp hid
    rw [h.fresh i s v hs hv] at hrow
    cases hrow
  · exact hrow

theorem moves_tables (h : Moves H D w i s a s' tables) : tables = w.tables ∨
    tables = w.committed H i s ∧ s.tx = .active ∧ s' = { s with tx := .committed } ∧
      ∃ reply, s.pc.reply = some reply := by
  cases h with
  | commit htx hreply => exact .inr ⟨rfl, htx, rfl, _, hreply⟩
  | _ => exact .inl rfl

theorem itemPendingByOther_eq_false {id : UUID} : w.itemPendingByOther i id = false ↔
    ∀ (j : Nat) (t : Session), j ≠ i → w.sessions[j]? = some t → t.item.map Item.id ≠ some id := by
  simp only [World.itemPendingByOther, anyOther_eq_false, decide_eq_false_iff_not, ne_eq]

theorem Inv.advisory_move (h : Inv H D w) (hs : w.sessions[i]? = some s)
    (hm : Moves H D w i s a s' tables) :
    Exclusive (Session.advisory H) (w.sessions.set i s') := by
  refine exclusive_set h.advisory fun id hid j t hne ht htid => ?_
  rcases moves_advisory hm hid with hold | hfree
  · exact hne (h.advisory j i t s id ht hs htid hold)
  · exact hfree j t hne ht htid

theorem Inv.locks_move (h : Inv H D w) (hs : w.sessions[i]? = some s)
    (hm : Moves H D w i s a s' tables) :
    Apart (fun s k => k ∈ s.locks H) (w.sessions.set i s') := by
  refine apart_set h.locks fun k hk j t hne ht htk => ?_
  rcases moves_locks hm (h.ok i s hs) hk with hold | ⟨hfree, -⟩
  · exact hne (h.locks j i t s k ht hs htk hold)
  · exact lockedByOther_eq_false.mp hfree j t hne ht htk

theorem Inv.ids_move (h : Inv H D w) (hs : w.sessions[i]? = some s)
    (hm : Moves H D w i s a s' tables) :
    Exclusive (fun s => s.item.map Item.id) (w.sessions.set i s') := by
  refine exclusive_set h.ids fun id hid j t hne ht htid => ?_
  obtain ⟨v, hv, rfl⟩ := Option.map_eq_some_iff.mp hid
  rcases moves_item hm hv with hold | ⟨hfree, -⟩
  · exact hne (h.ids j i t s v.id ht hs htid (by simp [hold]))
  · exact itemPendingByOther_eq_false.mp hfree j t hne ht htid

theorem Inv.fresh_move (h : Inv H D w) (hs : w.sessions[i]? = some s)
    (hm : Moves H D w i s a s' tables)
    (ht : (w.sessions.set i s')[j]? = some t) (hv : t.item = some v) :
    tables.items.lookup v.id = none := by
  rcases moves_tables hm with rfl | ⟨rfl, htx, rfl, -⟩
  · rcases set_cases ht with ⟨-, rfl⟩ | ⟨-, ht⟩
    · rcases moves_item hm hv with hold | ⟨-, hnone⟩
      · exact h.fresh i s v hs hold
      · exact hnone
    · exact h.fresh j t v ht hv
  · rcases set_cases ht with ⟨-, rfl⟩ | ⟨hne, ht⟩
    · cases (item_eq.mp hv).1
    · rw [lookup_committed_items, if_neg]
      · exact h.fresh j t v ht hv
      · exact fun hid => hne (h.ids j i t s v.id ht hs (by simp [hv]) hid)

theorem Inv.sees_move (h : Inv H D w) (hs : w.sessions[i]? = some s)
    (hm : Moves H D w i s a s' tables)
    (ht : (w.sessions.set i s')[j]? = some t) : t.Sees H tables := by
  rcases set_cases ht with ⟨-, rfl⟩ | ⟨hne, ht⟩
  · exact moves_sees hm (h.sees i s hs)
  · have hsees := h.sees j t ht
    rcases moves_tables hm with rfl | ⟨rfl, -⟩
    · exact hsees
    · exact hsees.transfer (fun htx hpc => h.committed_keys hs ht hne htx hpc)
        fun id row hrow => h.committed_items hs hrow

theorem Inv.move (h : Inv H D w) (hs : w.sessions[i]? = some s) (hm : Moves H D w i s a s' tables) :
    Inv H D ⟨tables, w.clock, w.sessions.set i s'⟩ where
  ok j t ht := by
    rcases set_cases ht with ⟨rfl, rfl⟩ | ⟨-, ht⟩
    · exact moves_ok hm (h.ok j s hs)
    · exact h.ok j t ht
  advisory := h.advisory_move hs hm
  locks := h.locks_move hs hm
  ids := h.ids_move hs hm
  fresh _ _ _ ht hv := h.fresh_move hs hm ht hv
  sees _ _ ht := h.sees_move hs hm ht

theorem Inv.call (h : Inv H D w) (request : StoreRequest) (ctx : Option Context) :
    Inv H D { w with sessions := w.sessions ++ [Session.new request ctx] } where
  ok j t ht := by
    rcases snoc_cases ht with ⟨-, rfl⟩ | ht
    · exact .new request ctx
    · exact h.ok j t ht
  advisory := exclusive_snoc h.advisory rfl
  locks := apart_snoc h.locks fun k hk => by cases (mem_locks.mp hk).1
  ids := exclusive_snoc h.ids rfl
  fresh j t v ht hv := by
    rcases snoc_cases ht with ⟨-, rfl⟩ | ht
    · cases hv
    · exact h.fresh j t v ht hv
  sees j t ht := by
    rcases snoc_cases ht with ⟨-, rfl⟩ | ht
    · exact .of_inactive nofun
    · exact h.sees j t ht

theorem Inv.create (h : Inv H D w) (hid : w.tables.items.lookup value.id = none)
    (hpending : ∀ s ∈ w.sessions, s.item.map Item.id ≠ some value.id) :
    Inv H D { w with tables :=
      { w.tables with items := w.tables.items.insert value.id ⟨D.readBack value, none⟩ } } where
  ok := h.ok
  advisory := h.advisory
  locks := h.locks
  ids := h.ids
  fresh j t v ht hv := by
    have hne : v.id ≠ value.id := by
      intro he
      exact hpending t (List.mem_of_getElem? ht) (by simp [hv, he])
    rw [AList.lookup_insert_ne hne]
    exact h.fresh j t v ht hv
  sees j t ht := by
    refine (h.sees j t ht).transfer (fun _ _ => .inl rfl) fun id row hrow => ?_
    rw [AList.lookup_insert_ne]
    · exact hrow
    · rintro rfl
      rw [hid] at hrow
      cases hrow

theorem inv_step (h : Inv H D w) (hstep : step H D w a = some w') : Inv H D w' := by
  cases step_stepped H D hstep with
  | call => exact h.call _ _
  | tick => exact ⟨h.ok, h.advisory, h.locks, h.ids, h.fresh, h.sees⟩
  | create hid hpending => exact h.create hid hpending
  | move hs hm => exact h.move hs hm

theorem inv_start (H : Hashes) (D : Columns) (tables : Tables) (clock : Timestamp) :
    Inv H D (World.start tables clock) where
  ok i s h := by simp [World.start] at h
  advisory := exclusive_nil
  locks := apart_nil
  ids := exclusive_nil
  fresh i s v h := by simp [World.start] at h
  sees i s h := by simp [World.start] at h

end

end GoClean.Postgres

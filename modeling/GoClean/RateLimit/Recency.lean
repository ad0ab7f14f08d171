import GoClean.Lib.Recency
import GoClean.RateLimit.Expiry
import GoClean.RateLimit.Invariant

/-!
# Eviction by recency

A map is walked in no particular order, and in another one at every call.
`Runs` lets the map be rearranged before each call. Without expiry and with
`evictOldest`, a limiter called at ever later readings is a cache of the most
recently used keys; at equal readings the key decides, still not the order of
the map.
-/

namespace GoClean.RateLimit

open Go Recency

/-- A run during which the map may be rearranged before each call. -/
inductive Runs (l : Limiter) : Buckets → List Call → List Answer → Buckets → Prop
  | nil : Runs l buckets [] [] buckets
  | cons {shuffled buckets : Buckets} {call : Call} : (∀ k, shuffled.lookup k = buckets.lookup k) →
      Runs l (l.step shuffled call).1 rest answers last →
      Runs l buckets (call :: rest) ((l.step shuffled call).2 :: answers) last

theorem runs_final (l : Limiter) (calls : List Call) : ∀ buckets,
    Runs l buckets calls ((Purge.answers l.step buckets calls).map Prod.snd)
    (Purge.final l.step buckets calls) := by
  induction calls with
  | nil => exact fun _ => .nil
  | cons call rest ih => exact fun _ => .cons (fun _ => rfl) (ih _)

def Limiter.usedKey (l : Limiter) (call : Call) : Option GoString :=
  match call.op with
  | .allowN key cost => if l.accepts key cost then some key else none
  | _ => none

def lastSeenOf (buckets : Buckets) (key : GoString) : Option ℤ :=
  (buckets.lookup key).map fun b => b.lastSeen.val.nanos

section
variable {l : Limiter} {now : Reading} {buckets buckets' : Buckets}
    {key other : GoString} {cost : Int}
  {recent : List GoString}

theorem isSome_lastSeenOf (buckets : Buckets) (key : GoString) :
    (lastSeenOf buckets key).isSome = (buckets.lookup key).isSome := Option.isSome_map

theorem lastSeenOf_congr (h : ∀ k, buckets'.lookup k = buckets.lookup k) (key : GoString) :
    lastSeenOf buckets' key = lastSeenOf buckets key := by
  rw [lastSeenOf, lastSeenOf, h key]

theorem lastSeenOf_insert (buckets : Buckets) (key : GoString) (b : Bucket) (k : GoString) :
    lastSeenOf (buckets.insert key b) k = if k = key then some b.lastSeen.val.nanos else
    lastSeenOf buckets k := by
  rw [lastSeenOf, AssocMap.lookup_insert_ite]
  split <;> rfl

theorem lastSeenOf_erase (buckets : Buckets) (key k : GoString) :
    lastSeenOf (buckets.erase key) k = if k = key then none else lastSeenOf buckets k := by
  rw [lastSeenOf]
  split
  · next hk => rw [hk, AList.lookup_erase]; rfl
  · next hk => rw [AList.lookup_erase_ne hk]; rfl

/-- A bucket that is served at a reading not before it was last seen is seen
then. -/
theorem serve_lastSeen {b : Bucket} (hb : b.Ok l) (hcost : 0 ≤ cost)
    (h : b.lastSeen.val.nanos ≤ now.val.nanos) :
    (l.serve now cost b).2.lastSeen.val.nanos = now.val.nanos := by
  rw [(Limiter.serve_ok hb hcost).lastSeen_eq, Limiter.serve_lastRefill hb]
  rw [hb.lastSeen_eq] at h
  exact max_eq_right h

theorem cleanupLocked_of_never (hnever : l.idleTTL = 0) :
    l.cleanupLocked now buckets = buckets := by
  rw [Limiter.cleanupLocked, if_pos (by rw [hnever])]

theorem tracks_evictOldestLocked (h : Tracks (lastSeenOf buckets) recent) (hne : recent ≠ []) :
    Tracks (lastSeenOf (evictOldestLocked buckets).1) recent.dropLast := by
  unfold evictOldestLocked
  cases ho : oldestOf buckets with
  | none =>
    obtain ⟨k, hk⟩ := List.exists_mem_of_ne_nil recent hne
    have hsome := (h.stamped k).mpr hk
    rw [isSome_lastSeenOf, oldestOf_none ho] at hsome
    cases hsome
  | some e =>
    obtain ⟨hold, hleast⟩ := oldestOf_some ho
    have hlast : recent.getLast? = some e.1 := by
      refine h.getLast (s := e.2.lastSeen.val.nanos) (by rw [lastSeenOf, hold]; rfl) fun k t ht =>
        ?_
      obtain ⟨b, hb, rfl⟩ := Option.map_eq_some_iff.mp ht
      have hrank := hleast k b hb
      rw [rank, rank, Prod.Lex.toLex_le_toLex] at hrank
      rcases hrank with hlt | ⟨heq, -⟩
      · exact hlt.le
      · exact heq.le
    obtain ⟨front, rfl⟩ := List.getLast?_eq_some_iff.mp hlast
    rw [List.dropLast_concat]
    exact h.forget.congr (lastSeenOf_erase buckets e.1)

theorem target_lastSeen (hok : BucketsOk l buckets) (hcost : 0 ≤ cost)
    (hnow : ∀ k, ∀ s ∈ lastSeenOf buckets k, s < now.val.nanos) :
    (l.serve now cost (l.target now buckets key)).2.lastSeen.val.nanos = now.val.nanos := by
  refine serve_lastSeen hok.target hcost ?_
  unfold Limiter.target
  cases hlive : l.liveEntry now buckets key with
  | none => exact le_rfl
  | some b => exact (hnow key _ (by rw [lastSeenOf, (Limiter.liveEntry_some.mp hlive).1]; rfl)).le

theorem length_recent (h : Tracks (lastSeenOf buckets) recent) :
    AssocMap.size buckets = recent.length :=
  AssocMap.size_eq_length h.nodup fun k => by rw [← h.stamped k, isSome_lastSeenOf]

theorem room_of_never (now : Reading) (buckets : Buckets) (key : GoString)
    (hpolicy : l.overflow = .evictOldest) (hnever : l.idleTTL = 0) :
    (l.room now buckets key).2 ≠ .full ∧
    ((∀ k, (l.room now buckets key).1.lookup k = buckets.lookup k) ∧
        ((buckets.lookup key).isSome ∨ (AssocMap.size buckets : Int) < l.maxClients) ∨
      (∀ k, (l.room now buckets key).1.lookup k = (evictOldestLocked buckets).1.lookup k) ∧
        buckets.lookup key = none ∧ l.maxClients ≤ AssocMap.size buckets) := by
  unfold Limiter.room
  rw [liveEntry_of_never hnever]
  cases hlookup : buckets.lookup key with
  | some b => exact ⟨nofun, .inl ⟨fun _ => rfl, .inl rfl⟩⟩
  | none =>
    have herase := AssocMap.lookup_erase_of_none hlookup
    have hsize := AssocMap.size_congr herase
    generalize hmade : l.makeRoom now (buckets.erase key) = made
    have hmakes : Limiter.MakesRoom l now (buckets.erase key) made :=
      hmade ▸ l.makeRoom_makesRoom now _
    dsimp only
    cases hmakes with
    | free hlt => exact ⟨nofun, .inl ⟨herase, .inr (hsize ▸ hlt)⟩⟩
    | swept hle hlt =>
      rw [cleanupLocked_of_never hnever] at hlt
      exact absurd hle (not_le.mpr hlt)
    | full _ hreject => rw [hpolicy] at hreject; cases hreject
    | evicted hle _ =>
      rw [cleanupLocked_of_never hnever] at hle ⊢
      exact ⟨nofun, .inr ⟨(evictOldestLocked_congr herase).2, rfl, hsize ▸ hle⟩⟩

/-- The buckets that are left when a call puts in its own: those of the
recent keys, without the last one if there are too many. -/
theorem tracks_room (now : Reading) (key : GoString) (hpolicy : l.overflow = .evictOldest)
    (hnever : l.idleTTL = 0) (hbound : l.Bounded buckets) (h : Tracks (lastSeenOf buckets) recent) :
    ∃ left, Tracks (lastSeenOf (l.room now buckets key).1) left ∧
      touch l.maxClients.toNat recent key = push left key := by
  have hpos := l.maxClients_pos
  have hlen := length_recent h
  have hmem : (buckets.lookup key).isSome ↔ key ∈ recent := by
    rw [← isSome_lastSeenOf, h.stamped key]
  unfold Limiter.Bounded at hbound
  rcases (room_of_never now buckets key hpolicy hnever).2 with ⟨hsame,
    hroom⟩ | ⟨hsame, hnone, hfull⟩
  · refine ⟨recent, h.congr (lastSeenOf_congr hsame), ?_⟩
    by_cases hin : key ∈ recent
    · exact touch_of_mem hin (by omega)
    · rcases hroom with hres | hlt
      · exact absurd (hmem.mp hres) hin
      · exact touch_of_room hin (by omega)
  · have hnot : key ∉ recent := fun hin => by
      have hres := hmem.mpr hin
      rw [hnone] at hres
      cases hres
    have hne : recent ≠ [] := List.length_pos_iff.mp (by omega)
    refine ⟨recent.dropLast, ?_, touch_of_full hnot (by omega) hne⟩
    exact (tracks_evictOldestLocked h hne).congr (lastSeenOf_congr hsame)

theorem tracks_allowN (hpolicy : l.overflow = .evictOldest) (hnever : l.idleTTL = 0)
    (hok : BucketsOk l buckets)
    (hbound : l.Bounded buckets) (h : Tracks (lastSeenOf buckets) recent)
    (hnow : ∀ k, ∀ s ∈ lastSeenOf buckets k, s < now.val.nanos) (hacc : l.accepts key cost = true) :
    Tracks (lastSeenOf (l.allowN buckets now key cost).buckets)
    (touch l.maxClients.toNat recent key) := by
  obtain ⟨left, hleft, htouch⟩ := tracks_room now key hpolicy hnever hbound h
  have hold : ∀ k, ∀ s ∈ lastSeenOf (l.room now buckets key).1 k, s < now.val.nanos := by
    intro k s hs
    obtain ⟨b, hb, rfl⟩ := Option.map_eq_some_iff.mp hs
    exact hnow k _ (by rw [lastSeenOf, Limiter.lookup_of_room hb]; rfl)
  rw [(Limiter.allowN_served now buckets hacc (room_of_never now buckets key hpolicy hnever).1).2,
    htouch]
  refine (hleft.use hold).congr fun k => ?_
  rw [lastSeenOf_insert, target_lastSeen hok (Limiter.accepts_cost hacc) hnow]

-- ---------------------------------------------------------------------------
-- Runs
-- ---------------------------------------------------------------------------

/-- What a run carries from call to call: the buckets are those of the recent
keys, and seen before the readings to come. -/
structure Follows (l : Limiter) (buckets : Buckets) (recent : List GoString) (calls : List Call) :
    Prop where
  ok : BucketsOk l buckets
  bounded : l.Bounded buckets
  tracks : Tracks (lastSeenOf buckets) recent
  seen : ∀ call ∈ calls, ∀ k, ∀ s ∈ lastSeenOf buckets k, s < call.now.val.nanos

def Limiter.recency (l : Limiter) (recent : List GoString) (call : Call) : List GoString :=
  match l.usedKey call with
  | some key => touch l.maxClients.toNat recent key
  | none => recent

theorem Follows.shuffle (h : Follows l buckets recent calls)
    (hs : ∀ k, buckets'.lookup k = buckets.lookup k) :
    Follows l buckets' recent calls where
  ok := fun key b hb => h.ok key b (hs key ▸ hb)
  bounded := by
    rw [Limiter.Bounded, AssocMap.size_congr hs]
    exact h.bounded
  tracks := h.tracks.congr (lastSeenOf_congr hs)
  seen := fun call hc k s hk => h.seen call hc k s (lastSeenOf_congr hs k ▸ hk)

theorem lastSeenOf_allowN_le (hok : BucketsOk l buckets)
    (hnow : ∀ k, ∀ s ∈ lastSeenOf buckets k, s < now.val.nanos) :
    ∀ k, ∀ s ∈ lastSeenOf (l.allowN buckets now key cost).buckets k, s ≤ now.val.nanos := by
  intro k s hs
  obtain ⟨b, hb, rfl⟩ := Option.map_eq_some_iff.mp hs
  have hold : ∀ {b : Bucket}, buckets.lookup k = some b → b.lastSeen.val.nanos ≤ now.val.nanos :=
    fun {b} hb => (hnow k _ (by rw [lastSeenOf, hb]; rfl)).le
  by_cases hk : k = key
  · subst hk
    cases hacc : l.accepts k cost with
    | false =>
      rw [Limiter.allowN_rejected hacc] at hb
      exact hold hb
    | true =>
      by_cases hroom : (l.room now buckets k).2 = .full
      · rw [Limiter.allowN_refused hacc hroom] at hb
        exact hold (Limiter.lookup_of_room hb)
      · rw [(Limiter.allowN_served now buckets hacc hroom).2, AList.lookup_insert] at hb
        cases hb
        exact (target_lastSeen hok (Limiter.accepts_cost hacc) hnow).le
  · exact hold (Limiter.lookup_of_allowN hk hb)

theorem Follows.step (hpolicy : l.overflow = .evictOldest) (hnever : l.idleTTL = 0)
    (h : Follows l buckets recent (call :: rest)) (hop : call.isAllowN = true)
    (horder : ∀ later ∈ rest, call.now < later.now) :
    Follows l (l.step buckets call).1 (l.recency recent call) rest := by
  obtain ⟨now, op⟩ := call
  cases op with
  | cleanup => cases hop
  | len => cases hop
  | allowN key cost =>
    have hnow : ∀ k, ∀ s ∈ lastSeenOf buckets k, s < now.val.nanos :=
      h.seen ⟨now, .allowN key cost⟩ List.mem_cons_self
    refine ⟨h.ok.step _, h.bounded.step _, ?_, fun later hlater k s hs => ?_⟩
    · simp only [Limiter.step_allowN, Limiter.recency, Limiter.usedKey]
      cases hacc : l.accepts key cost with
      | false =>
        rw [Limiter.allowN_rejected hacc]
        exact h.tracks
      | true => exact tracks_allowN hpolicy hnever h.ok h.bounded h.tracks hnow hacc
    · have hlt : now.val.nanos < later.now.val.nanos := horder later hlater
      exact lt_of_le_of_lt (lastSeenOf_allowN_le h.ok hnow k s hs) hlt

theorem foldl_recency (l : Limiter) (calls : List Call) : ∀ recent,
    calls.foldl l.recency recent =
      (calls.filterMap l.usedKey).foldl (touch l.maxClients.toNat) recent := by
  induction calls with
  | nil => exact fun _ => rfl
  | cons call rest ih =>
    intro recent
    rw [List.foldl_cons, ih, Limiter.recency]
    cases hused : l.usedKey call with
    | none => rw [List.filterMap_cons_none hused]
    | some key => rw [List.filterMap_cons_some hused, List.foldl_cons]

theorem Runs.tracks (hpolicy : l.overflow = .evictOldest) (hnever : l.idleTTL = 0)
    (hrun : Runs l buckets calls answers last) (hop : ∀ call ∈ calls, call.isAllowN = true)
    (horder : calls.Pairwise fun a b => a.now < b.now) :
    ∀ {recent}, Follows l buckets recent calls →
    Tracks (lastSeenOf last) (calls.foldl l.recency recent) := by
  induction hrun with
  | nil => exact fun h => h.tracks
  | cons hs _ ih =>
    intro recent h
    obtain ⟨hfirst, hrest⟩ := List.pairwise_cons.mp horder
    have hnext := (h.shuffle hs).step hpolicy hnever (hop _ List.mem_cons_self) hfirst
    exact ih (fun c hc => hop c (List.mem_cons_of_mem _ hc)) hrest hnext

/-- The answers and the entries of a run do not depend on the order of the
map. -/
theorem Runs.congr (hnever : l.idleTTL = 0) (hrun : Runs l buckets calls answers last)
    (hop : ∀ call ∈ calls, call.isAllowN = true) :
    ∀ {buckets' answers' last'}, (∀ k, buckets.lookup k = buckets'.lookup k) →
      Runs l buckets' calls answers' last' → answers = answers' ∧ ∀ k,
      last.lookup k = last'.lookup k := by
  induction hrun with
  | nil =>
    intro buckets' answers' last' hsame hrun'
    cases hrun'
    exact ⟨rfl, hsame⟩
  | @cons _ _ _ shuffled _ call hs _ ih =>
    intro buckets' answers' last' hsame hrun'
    cases hrun' with
    | @cons _ _ _ shuffled' _ _ hs' hrest' =>
      have hlive : SameLive l call.now shuffled shuffled' :=
        sameLive_of_lookup fun k => (hs k).trans ((hsame k).trans (hs' k).symm)
      have hcall := hop call List.mem_cons_self
      obtain ⟨now, op⟩ := call
      cases op with
      | cleanup => cases hcall
      | len => cases hcall
      | allowN key cost =>
        obtain ⟨hdecision, hevicted, hleft⟩ := hlive.allowN key cost
        have hnext : ∀ k, (l.step shuffled ⟨now, .allowN key cost⟩).1.lookup k =
            (l.step shuffled' ⟨now, .allowN key cost⟩).1.lookup k := by
          intro k
          have hk := hleft k
          rwa [liveEntry_of_never hnever, liveEntry_of_never hnever] at hk
        obtain ⟨hanswers, hlast⟩ := ih (fun c hc => hop c (List.mem_cons_of_mem _ hc)) hnext hrest'
        refine ⟨?_, hlast⟩
        rw [hanswers, Limiter.step_allowN, Limiter.step_allowN, hdecision, hevicted]

/-- A bucket that a call deletes is the least by the time it was last seen,
then by key. -/
theorem deleted_least (hpolicy : l.overflow = .evictOldest) (hnever : l.idleTTL = 0) {b : Bucket}
    (hb : buckets.lookup key = some b)
    (hgone : (l.allowN buckets now other cost).buckets.lookup key = none)
    (k : GoString) (e : Bucket) (hk : buckets.lookup k = some e) : rank (key, b) ≤ rank (k, e) := by
  cases hacc : l.accepts other cost with
  | false =>
    rw [Limiter.allowN_rejected hacc, hb] at hgone
    cases hgone
  | true =>
    obtain ⟨hroom, hcases⟩ := room_of_never now buckets other hpolicy hnever
    have hleft : (l.room now buckets other).1.lookup key = none := by
      rw [(Limiter.allowN_served now buckets hacc hroom).2, AssocMap.lookup_insert_ite] at hgone
      split at hgone
      · cases hgone
      · exact hgone
    rcases hcases with ⟨hsame, -⟩ | ⟨hsame, -, -⟩
    · rw [hsame, hb] at hleft
      cases hleft
    · rw [hsame, evictOldestLocked] at hleft
      cases ho : oldestOf buckets with
      | none =>
        rw [oldestOf_none ho] at hb
        cases hb
      | some oldest =>
        obtain ⟨hold, hleast⟩ := oldestOf_some ho
        rw [ho] at hleft
        have hkey : key = oldest.1 := by
          by_contra hne
          rw [AList.lookup_erase_ne hne, hb] at hleft
          cases hleft
        rw [← hkey, hb] at hold
        cases hold
        exact hkey ▸ hleast k e hk

theorem deleted_before (hpolicy : l.overflow = .evictOldest) (hnever : l.idleTTL = 0) {b e : Bucket}
    (hb : buckets.lookup key = some b)
    (hgone : (l.allowN buckets now other cost).buckets.lookup key = none)
    (hk : buckets.lookup k = some e) (hne : k ≠ key) :
    b.lastSeen < e.lastSeen ∨ b.lastSeen.val.equal e.lastSeen = true ∧ key < k := by
  have hlt : rank (key, b) < rank (k, e) := by
    refine lt_of_le_of_ne (deleted_least hpolicy hnever hb hgone k e hk) fun heq => hne ?_
    exact (congrArg (fun r => (ofLex r).2) heq).symm
  rw [rank, rank, Prod.Lex.toLex_lt_toLex] at hlt
  rw [Time.equal_iff_nanos]
  exact hlt

end

/-- The cache of the most recently used keys. -/
theorem evictOldest_keeps_most_recent {cfg : Config} {l : Limiter} (hnew : new cfg = .ok l)
    (hpolicy : cfg.overflow = .evictOldest) (hnever : cfg.idleTTL = 0) {calls : List Call}
    (hop : ∀ call ∈ calls, call.isAllowN = true) :
    ((calls.Pairwise fun a b => a.now < b.now) → ∀ answers last, Runs l ∅ calls answers last →
      ∀ key, (last.lookup key).isSome ↔
        key ∈ (mostRecent (calls.filterMap l.usedKey)).take cfg.maxClients.toNat) ∧
    (Purge.Ordered Call.now calls →
      (∀ done call rest answers buckets shuffled, calls = done ++ call :: rest →
        Runs l ∅ done answers buckets →
        (∀ k, shuffled.lookup k = buckets.lookup k) →
        ∀ key b, shuffled.lookup key = some b → (l.step shuffled call).1.lookup key = none →
        ∀ other b', shuffled.lookup other = some b' → other ≠ key →
          b.lastSeen < b'.lastSeen ∨ b.lastSeen.val.equal b'.lastSeen = true ∧ key < other) ∧
      ∀ answers answers' last last', Runs l ∅ calls answers last → Runs l ∅ calls answers' last' →
        answers = answers' ∧ ∀ key, last.lookup key = last'.lookup key) := by
  obtain ⟨-, -, -, hclients, httl, hoverflow⟩ := new_ok hnew
  rw [← hclients]
  rw [← hoverflow] at hpolicy
  rw [← httl] at hnever
  refine ⟨fun horder answers last hrun key => ?_, fun _ => ⟨?_, ?_⟩⟩
  · have hnone : ∀ k, lastSeenOf ∅ k = none := fun _ => rfl
    have hstart : Follows l ∅ [] calls :=
      ⟨bucketsOk_empty l, l.bounded_empty, tracks_nil hnone, by simp [hnone]⟩
    have htracks := hrun.tracks hpolicy hnever hop horder hstart
    rw [foldl_recency, foldl_touch] at htracks
    rw [← htracks.stamped key, isSome_lastSeenOf]
  · rintro done ⟨now, op⟩ rest answers buckets shuffled rfl - - key b hb hgone k e hk hne
    cases op with
    | cleanup => cases hop ⟨now, .cleanup⟩ (by simp)
    | len => cases hop ⟨now, .len⟩ (by simp)
    | allowN called cost => exact deleted_before hpolicy hnever hb hgone hk hne
  · intro answers answers' last last' hrun hrun'
    exact hrun.congr hnever hop (fun _ => rfl) hrun'

def Config.evicting : Config := { Config.small with
  idleTTL := 0
  overflow := .evictOldest }

def Limiter.evicting : Limiter := { Limiter.small with
  idleTTL := 0
  overflow := .evictOldest
  idleTTL_nonneg := by decide
  idleTTL_le := zero_le_maxIdleTTL }

/-- The third key takes the place of the one that was not used again. -/
theorem evictOldest_keeps_most_recent_two :
    let calls : List Call :=
  [⟨.ofSec 1, .allowN [97] 1⟩, ⟨.ofSec 2, .allowN [98] 1⟩, ⟨.ofSec 3, .allowN [97] 1⟩,
      ⟨.ofSec 4, .allowN [99] 1⟩]
    let last := Purge.final Limiter.evicting.step ∅ calls
    (last.lookup [97]).isSome ∧ ¬(last.lookup [98]).isSome ∧ (last.lookup [99]).isSome := by
  intro calls last
  have hnew : new Config.evicting = .ok Limiter.evicting := by decide +kernel
  have hop : ∀ call ∈ calls, call.isAllowN = true := by decide
  have hrecent := (evictOldest_keeps_most_recent hnew rfl rfl hop).1 (by decide +kernel) _ _
    (runs_final Limiter.evicting calls ∅)
  refine ⟨(hrecent [97]).mpr ?_, fun h => absurd ((hrecent [98]).mp h) ?_, (hrecent [99]).mpr ?_⟩
  all_goals decide +kernel

end GoClean.RateLimit

import GoClean.Go.Clock
import GoClean.Memory.Policy
import GoClean.Memory.Traversal

/-!
# Cursors beside offsets

`Service.List` with a codec and without. The codec brings four more ways to
fail: the position of the last item, the clock, the expiry and the order of
the two. None of them is taken when the items were created through the
service by the clock the codec reads: their times are not ahead of it, and
an expiry fits behind it.
-/

namespace GoClean.Memory

open Go Transition

/-- A reading of a running clock: a normal time after the zero time, from
which the longest TTL can still be added. -/
structure Running (t : Time) : Prop where
  normal : t.nsec.val < 1000000000
  after_zero : Time.zero.before t = true
  room : t.nanos + maxCursorTTL < 2 ^ 63 * 1000000000

def readings (actions : List CreateAction) : List Time :=
  actions.filterMap fun a => a.made?.map fun made => made.env.clock

section
variable {H : Hashes} {codec : SignedCursorCodec} {now t : Time} {id : UUID}

theorem Running.isZero (h : Running t) : t.isZero = false :=
  isZero_of_zero_lt (Time.before_iff.mp h.after_zero)

theorem Running.validate (h : Running t) (hid : id ≠ UUID.zero) :
    CursorPosition.validate ⟨t.utc, id⟩ = .ok () := by
  have hunix : (Time.unixUTC t.utc.utc.unix t.utc.utc.nsec).equal t.utc.utc = true :=
    Time.unixUTC_unix ⟨t.utc.utc, h.normal⟩
  simp only [CursorPosition.validate, hid, ne_eq, not_false_eq_true, decide_true, ensure_true,
    ok_bind, Time.isZero_utc, h.isZero, Bool.not_false, hunix]

theorem Running.expiry_after (h : Running now) (ht : t.nsec.val < 1000000000)
    (hle : now.before t = false)
    (hpos : 0 < ttl) (hmax : ttl ≤ maxCursorTTL) : (now.utc.add ttl).after t = true := by
  have hpos' : @LT.lt ℤ _ 0 ttl := hpos
  have hmax' : @LE.le ℤ _ ttl 2592000000000000 := hmax
  have hroom : now.nanos + 2592000000000000 < 2 ^ 63 * 1000000000 := h.room
  have hlow : -2 ^ 63 * 1000000000 ≤ now.nanos := (Time.nanos_range ⟨now, h.normal⟩).1
  have hnanos : (now.utc.add ttl).nanos = now.nanos + ttl :=
    Time.nanos_add ⟨now.utc, h.normal⟩ (by omega) (show _ ≤ now.nanos + ttl by omega)
      (show now.nanos + ttl < _ by omega)
  have hbefore := (Time.before_eq_false_iff_nanos ⟨now, h.normal⟩ ⟨t, ht⟩).mp hle
  refine (Time.after_iff_nanos ⟨_, Time.add_normal ⟨now.utc, h.normal⟩ ttl⟩ ⟨t, ht⟩).mpr ?_
  rw [hnanos]
  show t.nanos < now.nanos + ttl
  have hbefore' : t.nanos ≤ now.nanos := hbefore
  omega

/-- No item up to the reading makes `Encode` fail, and the token can be read
at once. -/
theorem Running.encodes (h : Running now)
    (hcodec : newSignedCursorCodec H secret options = .ok codec)
    (ht : Running t) (hle : now.before t = false) (hid : id ≠ UUID.zero) :
    ∃ token, codec.encode H now ⟨t.utc, id⟩ = .ok token ∧
    codec.decode H now token = .ok ⟨t.utc, id⟩ := by
  obtain ⟨-, hnonneg, hmax⟩ := newSignedCursorCodec_ok hcodec
  have hvalid := ht.validate hid
  obtain ⟨token, htoken⟩ : ∃ token, codec.encode H now ⟨t.utc, id⟩ = .ok token := by
    by_cases hpos : 0 < codec.ttl
    · exact ⟨_, encode_eq_ok hvalid h.isZero hpos
        (h.expiry_after h.normal (by simp [Time.before_eq_false_iff]) hpos hmax)
        (h.expiry_after ht.normal hle hpos hmax)⟩
    · have hexpiry : codec.expiryField now.utc ⟨t.utc, id⟩ =
          .ok (List.replicate cursorTimeBytes 0) := if_neg hpos
      exact ⟨_, encode_eq hvalid h.isZero hexpiry List.length_replicate⟩
  refine ⟨token, htoken, ?_⟩
  rw [decode_encoded rfl rfl hnonneg h.after_zero h.after_zero htoken, if_pos]
  · rfl
  · by_cases hpos : 0 < codec.ttl
    · exact .inr (h.expiry_after h.normal (by simp [Time.before_eq_false_iff]) hpos hmax)
    · exact .inl (le_antisymm (not_lt.mp hpos) hnonneg)

theorem nextCursor_eq (codec : CursorCodec) (hmore : more = true → items ≠ [])
    (hitems : ∀ v ∈ items, CursorPosition.validate ⟨v.createdAt, v.id⟩ = .ok () ∧
      ∃ token, codec.encode ⟨v.createdAt, v.id⟩ = .ok token) :
    (more = false ∧ codec.nextCursor more items = .ok []) ∨
    ∃ last token, more = true ∧ items.getLast? = some last ∧
    codec.encode ⟨last.createdAt, last.id⟩ = .ok token ∧
      codec.nextCursor more items = .ok token := by
  cases more with
  | false => exact .inl ⟨rfl, rfl⟩
  | true =>
    have hne := hmore rfl
    obtain ⟨hvalid, token, htoken⟩ := hitems _ (List.getLast_mem hne)
    have hlast := List.getLast?_eq_some_getLast hne
    refine .inr ⟨_, token, rfl, hlast, htoken, ?_⟩
    simp only [CursorCodec.nextCursor, hlast, cursorPositionForItem, hvalid, ok_bind, htoken]
    rfl

-- ---------------------------------------------------------------------------
-- The two listings
-- ---------------------------------------------------------------------------

/-- What the codec adds to a page of the listing without it. -/
structure Extends (H : Hashes) (codec : SignedCursorCodec) (now : Time) (plain withCursor : Page) :
    Prop where
  same : withCursor = { plain with nextCursor := withCursor.nextCursor }
  token : withCursor.nextCursor ≠ [] ↔ plain.hasMore = true
  position : plain.hasMore = true → ∃ last, plain.items.getLast? = some last ∧
    codec.decode H now withCursor.nextCursor = .ok ⟨last.createdAt, last.id⟩

def Encodable (H : Hashes) (codec : SignedCursorCodec) (now : Time) (v : Item) : Prop :=
  CursorPosition.validate ⟨v.createdAt, v.id⟩ = .ok () ∧
  ∃ token, codec.encode H now ⟨v.createdAt, v.id⟩ = .ok token ∧
    codec.decode H now token = .ok ⟨v.createdAt, v.id⟩

theorem extends_of_rows {rows : List Item} {limit : Int} (offset : Int) (hpos : 1 ≤ limit)
    (hrows : ∀ v ∈ rows, Encodable H codec now v) :
    ∃ token, CursorCodec.nextCursor ⟨codec.encode H now,
      codec.decode H now⟩ (decide (limit < rows.length))
        (cutRows limit rows) = .ok token ∧
      Extends H codec now ⟨cutRows limit rows, limit, offset, decide (limit < rows.length), []⟩
        ⟨cutRows limit rows, limit, offset, decide (limit < rows.length), token⟩ := by
  have hne : decide (limit < rows.length) = true → cutRows limit rows ≠ [] := by
    intro hmore hnil
    have hlen := congrArg List.length (cutRows_eq.symm.trans hnil)
    have hmore' := of_decide_eq_true hmore
    rw [List.length_take, List.length_nil] at hlen
    omega
  have hitems : ∀ v ∈ cutRows limit rows, Encodable H codec now v := by
    intro v hv
    rw [cutRows_eq] at hv
    exact hrows v (List.mem_of_mem_take hv)
  rcases nextCursor_eq ⟨codec.encode H now, codec.decode H now⟩ hne
    fun v hv => ⟨(hitems v hv).1, (hitems v hv).2.imp fun _ h => h.1⟩ with
    ⟨hmore, hnext⟩ | ⟨last, token, hmore, hlast, hencode, hnext⟩
  · exact ⟨[], hnext, rfl, by simp [hmore], by simp [hmore]⟩
  · obtain ⟨-, token', hencode', hdecode⟩ := hitems last (List.mem_of_getLast? hlast)
    cases hencode.symm.trans hencode'
    exact ⟨token, hnext, rfl,
      by simp [hmore, encode_ne_nil hencode], fun _ => ⟨last, hlast, hdecode⟩⟩

theorem list_extends {store : Store} (hstored : ∀ v ∈ store.values, Encodable H codec now v)
    (ctx : Option Context) (params : ListParams) :
    (∃ err, Service.list ⟨some store.listStore, none⟩ ctx params = .error err ∧
      (cursorService H codec store now now).list ctx params = .error err) ∨
    ∃ plain withCursor, Service.list ⟨some store.listStore, none⟩ ctx params = .ok plain ∧
      (cursorService H codec store now now).list ctx params = .ok withCursor ∧
      Extends H codec now plain withCursor := by
  simp only [Service.list, cursorService, Service.listNextCursor, Store.listStore]
  cases hctx : ensureContext ctx with
  | error err => exact .inl ⟨err, rfl, rfl⟩
  | ok _ =>
    cases hnormal : normalizeListParams params with
    | error err => exact .inl ⟨err, rfl, rfl⟩
    | ok normalized =>
      cases hrows : store.list ctx ⟨normalized.limit + 1, normalized.offset⟩ with
      | error err => exact .inl ⟨err, by simp [hrows], by simp [hrows]⟩
      | ok rows =>
        obtain ⟨-, -, hpos, -, -⟩ := normalizeListParams_ok hnormal
        have hvalues : ∀ v ∈ rows, Encodable H codec now v := by
          intro v hv
          rw [list_ok hrows] at hv
          exact hstored v (mem_newest.mp (List.mem_of_mem_drop (List.mem_of_mem_take hv)))
        obtain ⟨token, hnext, hextends⟩ := extends_of_rows normalized.offset hpos hvalues
        exact .inr ⟨_, _, by simp [hrows], by simp [hrows, hnext], hextends⟩

-- ---------------------------------------------------------------------------
-- Runs of the service
-- ---------------------------------------------------------------------------

/-- A call made at a reading up to `now`. -/
def MadeBy (now : Time) (made : Made) : Prop :=
  Running made.env.clock ∧ now.before made.env.clock = false

theorem encodable_of_made (hnow : Running now)
    (hcodec : newSignedCursorCodec H secret options = .ok codec)
    (hmade : MadeBy now made) (hvalue : made.candidate = .ok v) : Encodable H codec now v := by
  obtain ⟨hrunning, hle⟩ := hmade
  have hpolicy :=
    made.candidate_policy hvalue fun hzero => absurd (hrunning.isZero.symm.trans hzero) (by simp)
  have hdate := made.candidate_createdAt hvalue hrunning.isZero
  rw [Encodable, hdate]
  exact ⟨hrunning.validate hpolicy.id_ne_zero, hnow.encodes hcodec hrunning hle hpolicy.id_ne_zero⟩

/-- The clock of a run does not go back, so no call was made after its last
reading. -/
theorem madeBy_of_readings {actions : List CreateAction}
    (hrunning : ∀ t ∈ readings actions, Running t)
    (hmono : (readings actions ++ [now]).Pairwise fun t u => u.before t = false) :
    ∀ a ∈ actions, ∀ w w', createStep H w a = some w' → MadeFrom (MadeBy now) w a w' := by
  intro a ha w w' _ made hmade
  have hmem : made.env.clock ∈ readings actions :=
    List.mem_filterMap.mpr ⟨a, ha, by rw [hmade, Option.map_some]⟩
  exact ⟨hrunning _ hmem, (List.pairwise_append.mp hmono).2.2 _ hmem now List.mem_cons_self⟩

end

/-- Every item of the store was created through the service, whose clock the
codec shares: `List` with the codec and without it fail alike, and otherwise
return the same page up to `NextCursor`, which is set exactly when there is
more and can be read at once as the position of the last item. -/
theorem list_conservative (H : Hashes) (maxEntries : Int) (clock : Time) (secret : List UInt8)
    (options : List CursorCodecOption) (codec : SignedCursorCodec) (actions : List CreateAction)
    (w : CreateWorld) (now : Time) (hcodec : newSignedCursorCodec H secret options = .ok codec)
    (hrun : exec (createStep H) (CreateWorld.init maxEntries clock) actions = some w)
    (hrunning : ∀ t ∈ readings actions ++ [now], Running t)
    (hmono : (readings actions ++ [now]).Pairwise fun t u => u.before t = false)
    (ctx : Option Context) (params : ListParams) :
    (∀ err, Service.list ⟨some w.memory.store.listStore, none⟩ ctx params = .error err ↔
      (cursorService H codec w.memory.store now now).list ctx params = .error err) ∧
    ∀ plain, Service.list ⟨some w.memory.store.listStore, none⟩ ctx params = .ok plain →
      ∃ withCursor, (cursorService H codec w.memory.store now now).list ctx params =
        .ok withCursor ∧
        Extends H codec now plain withCursor := by
  have hmade :=
    madeBy_of_readings (H := H) (fun t ht => hrunning t (List.mem_append_left _ ht)) hmono
  have hinv := createInv_reachable (exec_run actions hmade hrun)
  have hnow : Running now := hrunning now (List.mem_append_right _ List.mem_cons_self)
  have hstored : ∀ v ∈ w.memory.store.values, Encodable H codec now v := by
    intro v hv
    obtain ⟨id, hl⟩ := AssocMap.mem_values_iff.mp hv
    obtain ⟨-, made, hby, hvalue⟩ := hinv.stored hl
    exact encodable_of_made hnow hcodec hby hvalue
  rcases list_extends hstored ctx params with ⟨err, hplain, hcursor⟩ | ⟨plain, withCursor,
    hplain, hcursor, hextends⟩
  · rw [hplain, hcursor]
    exact ⟨fun _ => Iff.rfl, nofun⟩
  · rw [hplain, hcursor]
    refine ⟨fun _ => ⟨nofun, nofun⟩, fun plain' heq => ?_⟩
    cases heq
    exact ⟨withCursor, rfl, hextends⟩

def twoCreates : List CreateAction :=
  [.create sampleMade (some .background), .advance 0, .advance 0,
    .create { sampleMade with env := {
      generateID := .ok ⟨[2, 0, 0, 0, 0, 0, 0x40, 0, 0x80, 0, 0, 0, 0, 0, 0, 0], rfl⟩
      clock := ⟨63900000001, 0, none⟩
      wall := sampleTime } } (some .background), .advance 1, .advance 1]

theorem list_conservative_two_items :
    ∃ w plain withCursor, exec (createStep Hashes.go) (CreateWorld.init 2 sampleTime) twoCreates =
      some w ∧
      Service.list ⟨some w.memory.store.listStore, none⟩ (some .background) ⟨1, 0⟩ = .ok plain ∧
      plain.hasMore = true ∧
      (cursorService Hashes.go sampleCodec w.memory.store ⟨63900000001, 0, none⟩
        ⟨63900000001, 0, none⟩).list
        (some .background) ⟨1, 0⟩ = .ok withCursor ∧
      withCursor.items = plain.items ∧ withCursor.nextCursor ≠ [] := by
  have hpage : (exec (createStep Hashes.go) (CreateWorld.init 2 sampleTime) twoCreates).bind
    (fun w =>
      (Service.list ⟨some w.memory.store.listStore, none⟩ (some .background) ⟨1, 0⟩).toOption.map
        Page.hasMore) =
      some true := by decide +kernel
  obtain ⟨w, hw, hpage⟩ := Option.bind_eq_some_iff.mp hpage
  obtain ⟨plain, hplain, hmore⟩ := Option.map_eq_some_iff.mp hpage
  have hplain := toOption_some hplain
  have hreadings : readings twoCreates = [sampleTime, ⟨63900000001, 0, none⟩] := rfl
  have hrunning : ∀ t ∈ readings twoCreates ++ [⟨63900000001, 0, none⟩], Running t := by
    have hall : ∀ t ∈ readings twoCreates ++ [⟨63900000001, 0, none⟩], t.nsec.val < 1000000000 ∧
        Time.zero.before t = true ∧ t.nanos + maxCursorTTL < 2 ^ 63 * 1000000000 := by
      rw [hreadings]
      decide +kernel
    exact fun t ht => ⟨(hall t ht).1, (hall t ht).2.1, (hall t ht).2.2⟩
  obtain ⟨withCursor, hcursor, hextends⟩ := (list_conservative Hashes.go 2 sampleTime sampleSecret
    [withCursorTTL Duration.hour] sampleCodec twoCreates w ⟨63900000001, 0,
      none⟩ sampleCodec_new hw hrunning
    (by rw [hreadings]; decide +kernel) (some .background) ⟨1, 0⟩).2 plain hplain
  have hitems : withCursor.items = plain.items := by rw [hextends.same]
  exact ⟨w, plain, withCursor, hw, hplain, hmore, hcursor, hitems, hextends.token.mpr hmore⟩

end GoClean.Memory

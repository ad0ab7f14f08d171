import GoClean.Memory.AllOrNothing
import GoClean.Memory.Listing

/-!
# Following cursors through the memory store

A client asks for a first page, with an empty cursor or by an offset, and
follows `NextCursor` while there is more. Any run of the store may take
place between two pages. Such a traversal is a walk of the keyset library
over the stores' newest-first lists (`Traversal.walk`): the codec gives
back the place of the last item, and items are never removed.
-/

namespace GoClean.Memory

open Go Keyset Transition

/-- The service over a store, when the codec's clock reads `decoding` for a
token it is given and `encoding` for the one it makes. -/
def cursorService (H : Hashes) (codec : SignedCursorCodec) (store : Store)
    (decoding encoding : Time) : Service :=
  ⟨some store.listStore, some ⟨codec.encode H encoding, codec.decode H decoding⟩⟩

/-- A page, and the world it was read from. -/
structure Visit where
  world : World
  items : List Item
  hasMore : Bool
  nextCursor : GoString

/-- The pages of a traversal that began in `start`, the latest first. Each
request has its own context, limit and readings of the clock. -/
inductive Traversal (H : Hashes) (codec : SignedCursorCodec) (start : World) :
    Nat → List Visit → Prop
  | cursor : (cursorService H codec start.store decoding encoding).listCursor ctx ⟨limit, []⟩ =
        .ok page →
      Traversal H codec start 0 [⟨start, page.items, page.hasMore, page.nextCursor⟩]
  | offset : (cursorService H codec start.store decoding encoding).list ctx params = .ok page →
      Traversal H codec start params.offset.toNat
        [⟨start, page.items, page.hasMore, page.nextCursor⟩]
  | next : Traversal H codec start index (visit :: visits) → visit.hasMore = true →
      Reaches (step H) visit.world w →
      (cursorService H codec w.store decoding encoding).listCursor ctx
        ⟨limit, visit.nextCursor⟩ = .ok page →
      Traversal H codec start index
        (⟨w, page.items, page.hasMore, page.nextCursor⟩ :: visit :: visits)

def Visit.page (visit : Visit) : Keyset.Page Item :=
  ⟨newest visit.world.store.values, visit.items, visit.hasMore⟩

def concatenation (visits : List Visit) : List Item := served (visits.map Visit.page)

section
variable {H : Hashes} {codec : SignedCursorCodec}

-- ---------------------------------------------------------------------------
-- The token of a page
-- ---------------------------------------------------------------------------

theorem encode_ne_nil (h : codec.encode H clock position = .ok token) : token ≠ [] := by
  obtain ⟨-, -, expiry, rfl, -⟩ := encode_ok h
  exact List.append_ne_nil_of_left_ne_nil (by decide) _

/-- Whenever the token is accepted, it names the instant and the id it was
made from. -/
theorem decode_of_encode (h : codec.encode H encoding position = .ok token)
    (hd : codec.decode H decoding token = .ok position') :
    positionKey position'.createdAt position'.id = positionKey position.createdAt position.id := by
  obtain ⟨-, -, expiry, rfl, hexpiry⟩ := encode_ok h
  have hlen : expiry.length = cursorTimeBytes := by
    rcases hexpiry with ⟨-, rfl⟩ | ⟨-, rfl, -⟩
    · exact List.length_replicate
    · exact Time.length_wire _
  simp only [decode_sealed hlen, bind_ok, pure_ok] at hd
  obtain ⟨_, -, _, -, _, -, rfl⟩ := hd
  rfl

theorem nextCursor_ok {codec : CursorCodec} (h : codec.nextCursor true items = .ok token)
    (hlast : items.getLast? = some b) : codec.encode ⟨b.createdAt, b.id⟩ = .ok token := by
  simp only [CursorCodec.nextCursor, hlast, bind_ok] at h
  obtain ⟨position, hposition, hencode⟩ := h
  obtain ⟨rfl, -⟩ := cursorPositionForItem_ok hposition
  cases henc : codec.encode ⟨b.createdAt, b.id⟩ with
  | error err =>
    rw [henc] at hencode
    cases hencode
  | ok t =>
    rw [henc] at hencode
    exact hencode

-- ---------------------------------------------------------------------------
-- A traversal is a walk
-- ---------------------------------------------------------------------------

theorem values_subset {w w' : World} (h : Inv H w) (hr : Reaches (step H) w w') :
    w.store.values ⊆ w'.store.values := by
  intro v hv
  obtain ⟨id, hl⟩ := AssocMap.mem_values_iff.mp hv
  exact AssocMap.mem_values_iff.mpr ⟨id, lookup_kept h hr hl⟩

theorem Inv.ids_nodup {w : World} (h : Inv H w) : (w.store.values.map Item.id).Nodup :=
  values_ids_nodup fun id v hl => (h.items id v hl).1

/-- Between requests: the world is a real one, and a token that leads on
names the place of the last item. -/
structure Visit.Ok (H : Hashes) (codec : SignedCursorCodec) (visit : Visit) : Prop where
  inv : Inv H visit.world
  token : ∀ b, visit.hasMore = true → visit.items.getLast? = some b →
    ∃ clock, codec.encode H clock ⟨b.createdAt, b.id⟩ = .ok visit.nextCursor

theorem visit_ok {w : World} {items : List Item} (h : Inv H w)
    (hcut : Cut ⟨codec.encode H encoding, codec.decode H decoding⟩ limit rows items more token) :
    Visit.Ok H codec ⟨w, items, more, token⟩ where
  inv := h
  token b hmore hlast := by
    cases hmore
    exact ⟨encoding, nextCursor_ok hcut.next hlast⟩

theorem Traversal.walk {start : World} (h : Traversal H codec start index (visit :: visits))
    (hinv : Inv H start) :
    Visit.Ok H codec visit ∧
      Walk itemKey (newest start.store.values) index ((visit :: visits).map Visit.page) := by
  generalize hall : visit :: visits = all at h
  induction h generalizing visit visits with
  | cursor hpage =>
    cases hall
    obtain ⟨after, rows, hresume, hrows, hcut⟩ := serviceListCursor_ok hpage rfl
    refine ⟨visit_ok hinv hcut, .first (newest_descending hinv.ids_nodup) ?_⟩
    rw [CursorCodec.resume_nil] at hresume
    cases hresume
    rw [listAfter_ok hinv.ids_nodup hrows] at hcut
    exact cut_cuts hcut
  | offset hpage =>
    cases hall
    obtain ⟨rows, hrows, hcut⟩ := serviceList_ok hpage rfl
    refine ⟨visit_ok hinv hcut, .first (newest_descending hinv.ids_nodup) ?_⟩
    rw [list_ok hrows] at hcut
    exact cut_cuts hcut
  | next _ hmore hr hpage ih =>
    cases hall
    obtain ⟨hok, hwalk⟩ := ih rfl
    obtain ⟨b, hlast⟩ := hwalk.getLast hmore
    obtain ⟨clock, hencode⟩ := hok.token b hmore hlast
    have hinv' := hr.invariant (fun _ _ _ hi hs _ => inv_step hi hs) hok.inv
    obtain ⟨after, rows, hresume, hrows, hcut⟩ := serviceListCursor_ok hpage rfl
    refine ⟨visit_ok hinv' hcut, .next hwalk hmore (newest_descending hinv'.ids_nodup) ?_ hlast ?_⟩
    · intro v hv
      exact mem_newest.mpr (values_subset hok.inv hr (mem_newest.mp hv))
    · obtain ⟨position, hdecode, rfl⟩ := CursorCodec.resume_ok hresume (encode_ne_nil hencode)
      rw [listAfter_ok hinv'.ids_nodup hrows, remaining, decode_of_encode hencode hdecode] at hcut
      exact cut_cuts hcut

end

/-- Whatever happens between its pages, a traversal reads items in strictly
descending order, reads each item of the start exactly once from its index
on, and never one that came at or above a boundary it had passed. When
nothing is added it reads the rest of the list, in at most as many pages as
there are items in it. `l` is any newest-first ordering of the items
there were at the first page. -/
theorem cursor_traversal (H : Hashes) (codec : SignedCursorCodec) (maxEntries : Int) (clock : Time)
    (start : World) (index : Nat) (visit : Visit) (visits : List Visit) (l : List Item)
    (hstart : Reaches (step H) (World.init maxEntries clock) start)
    (h : Traversal H codec start index (visit :: visits))
    (hperm : l.Perm start.store.values) (hsorted : l.Pairwise Newer) :
    (concatenation (visit :: visits)).Pairwise Newer ∧
    (concatenation (visit :: visits)).Nodup ∧
    (visit.hasMore = false → ∀ value ∈ l.drop index,
      (concatenation (visit :: visits)).count value = 1) ∧
    (∀ earlier ∈ visit :: visits, ∀ last value, earlier.items.getLast? = some last →
      value ∉ earlier.world.store.values → ¬ Newer last value →
      value ∉ concatenation (visit :: visits)) ∧
    ((∀ other ∈ visit :: visits, other.world.store.values ⊆ start.store.values) →
      (visit.hasMore = false → concatenation (visit :: visits) = l.drop index) ∧
      (visit.hasMore = true → (visit :: visits).length < (l.drop index).length)) := by
  have hinv := inv_reachable hstart
  obtain ⟨-, hwalk⟩ := h.walk hinv
  have hl : l = newest start.store.values := eq_newest hinv.ids_nodup hperm hsorted
  subst hl
  have hdesc : Descending itemKey (concatenation (visit :: visits)) := hwalk.descending
  refine ⟨hdesc.imp newer_iff.mpr, hdesc.nodup, ?_, ?_, ?_⟩
  · intro hdone value hvalue
    rcases hwalk.covers hvalue with hserved | ⟨hmore, -⟩
    · exact List.count_eq_one_of_mem hdesc.nodup hserved
    · exact absurd (hdone.symm.trans hmore) Bool.false_ne_true
  · intro earlier hearlier last value hlast hnew hplace
    refine hwalk.late (List.mem_map_of_mem hearlier)
      (fun hmem => hnew (mem_newest.mp hmem)) hlast ?_
    exact not_lt.mp fun hlt => hplace (newer_iff.mpr hlt)
  · intro hsame
    have hrows : ∀ p ∈ (visit :: visits).map Visit.page, p.rows ⊆ newest start.store.values := by
      intro p hp
      obtain ⟨other, hother, rfl⟩ := List.mem_map.mp hp
      exact fun v hv => mem_newest.mpr (hsame other hother (mem_newest.mp hv))
    obtain ⟨-, n, hserved, hmore, hlen⟩ := hwalk.static hrows
    rw [List.length_cons, List.length_map] at hlen
    constructor
    · intro hdone
      have hall : ¬ n < ((newest start.store.values).drop index).length :=
        of_decide_eq_false (hmore.symm.trans hdone)
      exact hserved.trans (List.take_of_length_le (not_lt.mp hall))
    · intro hgoes
      exact lt_of_le_of_lt hlen (of_decide_eq_true (hmore.symm.trans hgoes))

theorem toOption_some {x : Except ε α} (h : x.toOption = some a) : x = .ok a := by
  cases x with
  | error e => cases h
  | ok b =>
    cases h
    rfl

def threeItems : List Action :=
  [.spawn (.create (sampleItem 1)) (some .background), .advance 0, .advance 0,
    .spawn (.create (sampleItem 2)) (some .background), .advance 1, .advance 1,
    .spawn (.create (sampleItem 3)) (some .background), .advance 2, .advance 2]

def fourthItem : List Action :=
  [.spawn (.create (sampleItem 9)) (some .background), .advance 3, .advance 3]

/-- The one-hour token for the place of `sampleItem 2`. -/
def pageToken : GoString :=
  sampleCodec.seal Hashes.go (payloadOf sampleTime (sampleTime.add Duration.hour).wire
    (sampleItem 2).id)

/-- Pages of two, with an item created above the boundary in between. -/
theorem cursor_traversal_two_pages : ∃ start w,
    exec (step Hashes.go) (World.init 0 sampleTime) threeItems = some start ∧
    exec (step Hashes.go) start fourthItem = some w ∧
    Traversal Hashes.go sampleCodec start 0
      [⟨w, [sampleItem 1], false, []⟩, ⟨start, [sampleItem 3, sampleItem 2], true, pageToken⟩] ∧
    ∀ n ∈ [1, 2, 3], List.count (sampleItem n) (concatenation
      [⟨w, [sampleItem 1], false, []⟩, ⟨start, [sampleItem 3, sampleItem 2], true, pageToken⟩]) =
        1 := by
  have hrun : (exec (step Hashes.go) (World.init 0 sampleTime) threeItems).bind (fun start =>
      (exec (step Hashes.go) start fourthItem).map fun w =>
        (start.store.values, (start.store.listAfter (some .background) ⟨3, none⟩).toOption,
          (w.store.listAfter (some .background) ⟨3,
          some ⟨sampleTime, (sampleItem 2).id⟩⟩).toOption)) =
      some ([sampleItem 3, sampleItem 2, sampleItem 1],
        some [sampleItem 3, sampleItem 2, sampleItem 1], some [sampleItem 1]) := by decide +kernel
  obtain ⟨start, hstart, hrun⟩ := Option.bind_eq_some_iff.mp hrun
  obtain ⟨w, hw, hrows⟩ := Option.map_eq_some_iff.mp hrun
  simp only [Prod.mk.injEq] at hrows
  obtain ⟨hvalues, hfirst, hsecond⟩ := hrows
  have hfirst := toOption_some hfirst
  have hsecond := toOption_some hsecond
  have hencode : sampleCodec.encode Hashes.go sampleTime ⟨sampleTime, (sampleItem 2).id⟩ =
      .ok pageToken :=
    encode_eq_ok rfl (by decide) (by decide) (by decide) (by decide)
  have hdecode : sampleCodec.decode Hashes.go sampleTime pageToken = .ok ⟨sampleTime,
      (sampleItem 2).id⟩ := by
    rw [pageToken, decode_sealed (Time.length_wire _), readOptionalTime_wire]
    rfl
  have hpage₁ : (cursorService Hashes.go sampleCodec start.store sampleTime sampleTime).listCursor
      (some .background) ⟨2, []⟩ = .ok ⟨[sampleItem 3, sampleItem 2], 2, pageToken, true⟩ := by
    refine serviceListCursor_eq _ 2 [sampleItem 3, sampleItem 2, sampleItem 1]
      (by decide) rfl (by decide)
      (CursorCodec.resume_nil _) hfirst (by decide) ?_
    exact congrArg (Except.mapError (.join errCursorState)) hencode
  have hpage₂ : (cursorService Hashes.go sampleCodec w.store sampleTime sampleTime).listCursor
      (some .background) ⟨2, pageToken⟩ = .ok ⟨[sampleItem 1], 2, [], false⟩ := by
    have hlen : pageToken.length = 109 := length_seal _ (length_payloadOf (Time.length_wire _))
    refine serviceListCursor_eq _ 2 [sampleItem 1] (by decide) rfl (by decide) ?_
      hsecond (by decide) rfl
    refine CursorCodec.resume_eq (encode_ne_nil hencode) ?_ hdecode rfl
    rw [hlen]
    decide
  have ht : Traversal Hashes.go sampleCodec start 0
      [⟨w, [sampleItem 1], false, []⟩, ⟨start, [sampleItem 3, sampleItem 2], true, pageToken⟩] :=
    .next (.cursor hpage₁) rfl (exec_reaches fourthItem hw) hpage₂
  refine ⟨start, w, hstart, hw, ht, fun n hn => ?_⟩
  refine (cursor_traversal Hashes.go sampleCodec 0 sampleTime start 0 _ _
    [sampleItem 3, sampleItem 2, sampleItem 1] (exec_reaches threeItems hstart) ht
      (by rw [hvalues]) ?_).2.2.1 rfl _ ?_
  · unfold Newer
    decide
  · revert n
    decide +kernel

end GoClean.Memory

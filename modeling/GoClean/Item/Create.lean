import GoClean.Go.Strings
import GoClean.Item.Idempotency

/-!
# The policy of created items

`Service.Create` up to its call of the store, written out as its source has
it, next to the keyed path of `Item/Idempotency`. Both build their candidate
from the same three things, and every candidate obeys the policy of the
domain.
-/

namespace GoClean

open Go

def createRequest (env : CreateEnv) (ctx : Option Context) (input : CreateInput) :
    Except Error Item := do
  ensureContext ctx
  let canonical ← validateCreateInput input
  let id ← env.generateID.mapError (.join errIDGeneration)
  ensure (decide (id ≠ UUID.zero ∧ id.version = 4) && id.isRFC4122)
    (.join errIDGeneration (.join errInvalidInput
      (.foreign "generated UUID must be RFC4122 version 4")))
  let createdAt := if env.clock.isZero then env.wall else env.clock
  pure ⟨id, canonical.name, canonical.description, createdAt.utc⟩

deriving instance DecidableEq for CreateEnv

structure Made where
  env : CreateEnv
  input : CreateInput
  deriving DecidableEq

def Made.candidate (made : Made) : Except Error Item := do
  let canonical ← validateCreateInput made.input
  newItem made.env canonical

structure Made.Same (made made' : Made) : Prop where
  input : made.input = made'.input
  generateID : made.env.generateID = made'.env.generateID
  clock : made.env.clock = made'.env.clock
  /-- The wall clock is read in place of a zero reading only. -/
  wall : made.env.clock.isZero = true → made.env.wall = made'.env.wall

theorem Made.Same.candidate {made made' : Made} (h : made.Same made') (hv : made.candidate = .ok v)
    (hv' : made'.candidate = .ok v') : v = v' := by
  have hdate : (if made.env.clock.isZero then made.env.wall else made.env.clock) =
      if made'.env.clock.isZero then made'.env.wall else made'.env.clock := by
    rw [← h.clock]
    split
    · next hzero => exact h.wall hzero
    · rfl
  simp only [Made.candidate, newItem, h.input, h.generateID, hdate] at hv hv'
  exact Except.ok.inj (hv.symm.trans hv')

theorem createRequest_ok (h : createRequest env ctx input = .ok value) :
    Made.candidate ⟨env, input⟩ = .ok value := by
  simp only [createRequest, bind_ok, ensure_ok, pure_ok] at h
  obtain ⟨_, -, canonical, hcanonical, id, hid, _, hversion, rfl⟩ := h
  simp only [Made.candidate, newItem, hcanonical, ok_bind, hid, hversion, ensure_true]
  rfl

theorem createIdempotentRequest_ok {H : Hashes}
    (h : createIdempotentRequest H env ctx input key = .ok request) :
    Made.candidate ⟨env, input⟩ = .ok request.value := by
  simp only [createIdempotentRequest, bind_ok, pure_ok] at h
  obtain ⟨_, -, _, -, canonical, hcanonical, _, -, value, hvalue, rfl⟩ := h
  simp only [Made.candidate, hcanonical, ok_bind, hvalue]

/-- What the domain promises of a stored item. -/
structure Item.Policy (value : Item) : Prop where
  id_ne_zero : value.id ≠ UUID.zero
  version : value.id.version = 4
  variant : value.id.isRFC4122 = true
  name_valid : validString value.name = true
  name_min : minNameLength ≤ runeCountInString value.name
  name_max : runeCountInString value.name ≤ maxNameLength
  name_trimmed : Trimmed value.name
  description_valid : validString value.description = true
  description_max : runeCountInString value.description ≤ maxDescriptionLength
  description_trimmed : Trimmed value.description
  createdAt_ne_zero : value.createdAt.isZero = false
  createdAt_utc : value.createdAt.utc = value.createdAt

/-- `time.Now` is not the zero time, where it is read. -/
def Made.Dated (made : Made) : Prop := made.env.clock.isZero = true → made.env.wall.isZero = false

theorem Made.candidate_policy {made : Made} (h : made.candidate = .ok value) (hdated : made.Dated) :
    value.Policy := by
  simp only [Made.candidate, validateCreateInput, newItem, bind_ok, ensure_ok, pure_ok,
    Bool.and_eq_true, decide_eq_true_eq] at h
  obtain ⟨canonical, ⟨_, hname, _, hmin, _, hmax, _, hdesc, _, hlong, rfl⟩, id, -, _,
    ⟨⟨hid, hversion⟩, hvariant⟩, rfl⟩ := h
  exact {
    id_ne_zero := hid
    version := hversion
    variant := hvariant
    name_valid := hname
    name_min := hmin
    name_max := hmax
    name_trimmed := trimmed_trimSpace _
    description_valid := hdesc
    description_max := hlong
    description_trimmed := trimmed_trimSpace _
    createdAt_ne_zero := by
      rw [Time.isZero_utc]
      split
      · next hzero => exact hdated hzero
      · next h => exact Bool.eq_false_iff.mpr h
    createdAt_utc := rfl }

theorem Made.candidate_createdAt {made : Made} (h : made.candidate = .ok value)
    (hclock : made.env.clock.isZero = false) : value.createdAt = made.env.clock.utc := by
  simp only [Made.candidate, newItem, bind_ok, pure_ok] at h
  obtain ⟨_, -, _, -, _, -, rfl⟩ := h
  simp [hclock]

end GoClean

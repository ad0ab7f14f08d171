import GoClean.Go.JsonObject

/-!
# The body of a create request

`decodeStrictJSON` of `internal/item/httpapi` for the destination `Create`
gives it, over the decoder of `encoding/json`. A body is accepted exactly if
it is one object text within the limit whose members are known and are
strings or null (`decodeStrictJSON_iff`).
-/

namespace GoClean.HttpApi

open Go Json

-- ---------------------------------------------------------------------------
-- Reading
-- ---------------------------------------------------------------------------

/-- The bytes a reader gives, and whether it fails after them instead of
ending with `io.EOF`. -/
structure Body where
  bytes : GoString
  broken : Bool
  deriving DecidableEq

def maxBytesReader (body : Body) (limit : Nat) : Body :=
  if body.bytes.length ≤ limit then body else ⟨body.bytes.take limit, true⟩

inductive Decoded
  | value (v : JsonValue) (rest : GoString)
  | eof
  | failed

/-- Objects and arrays end at their last byte; the decoder looks at the byte
after any other value. -/
def closesItself : JsonValue → Bool
  | .object _ => true
  | .array _ => true
  | _ => false

/-- `Decoder.readValue` at the bytes that are left. -/
def decodeNext (body : Body) : Decoded :=
  match readValue body.bytes with
  | some (v, rest) =>
    if closesItself v || !rest.isEmpty || !body.broken then .value v rest else .failed
  | none => if (skipBlanks body.bytes).isEmpty && !body.broken then .eof else .failed

-- ---------------------------------------------------------------------------
-- Storing
-- ---------------------------------------------------------------------------

structure CreateRequest where
  name : GoString
  description : GoString
  deriving DecidableEq

inductive Field
  | name
  | description
  deriving DecidableEq

def Field.key : Field → GoString
  | name => "name"
  | description => "description"

def Field.all : List Field := [.name, .description]

def fieldFor (key : GoString) : Option Field :=
  (Field.all.find? fun f => f.key = key).or (Field.all.find? fun f => equalFold key f.key)

def CreateRequest.set (request : CreateRequest) (field : Field) (text : GoString) : CreateRequest :=
  match field with
  | .name => { request with name := text }
  | .description => { request with description := text }

/-- One round of the loop of `object`, or `none` for what `DisallowUnknownFields`
or the type of the field refuses. Null leaves a string as it is. -/
def storeMember (request : CreateRequest) (member : GoString × JsonValue) :
    Option CreateRequest := do
  let key ← unquoteBytes member.1
  let field ← fieldFor key
  match member.2 with
  | .null => some request
  | .string body => (unquoteBytes body).map (request.set field)
  | _ => none

/-- `unmarshal` into a pointer to a `createRequest`, which null leaves nil. -/
def unmarshal : JsonValue → Option (Option CreateRequest)
  | .null => some none
  | .object members => (members.foldlM storeMember ⟨[], []⟩).map some
  | _ => none

-- ---------------------------------------------------------------------------
-- Decoding
-- ---------------------------------------------------------------------------

def defaultMaxBodyBytes : Int := 2 ^ 20

/-- What `decodeStrictJSON` reads of a request: its `ContentLength` and its
body, which may be nil. -/
structure Upload where
  contentLength : Int
  body : Option Body
  deriving DecidableEq

def bodyLimit (maxBytes : Int) : Int := if maxBytes ≤ 0 then defaultMaxBodyBytes else maxBytes

/-- `decodeStrictJSON`, or `none` for an error: the handler answers every error
alike. -/
def decodeStrictJSON (upload : Upload) (maxBytes : Int) : Option (Option CreateRequest) := do
  let body ← upload.body
  if bodyLimit maxBytes < upload.contentLength then none
  else
    let body := maxBytesReader body (bodyLimit maxBytes).toNat
    match decodeNext body with
    | .value v rest => do
      let request ← unmarshal v
      match decodeNext ⟨rest, body.broken⟩ with
      | .eof => some request
      | .value _ _ => none
      | .failed => none
    | .eof => none
    | .failed => none

-- ---------------------------------------------------------------------------
-- Fields
-- ---------------------------------------------------------------------------

theorem equalFold_self (key : GoString) : equalFold key key = true := beq_self_eq_true _

variable {f g : Field} {m : Member}

theorem fold_unique (hf : equalFold key f.key = true) (hg : equalFold key g.key = true) :
    f = g := by
  simp only [equalFold, beq_iff_eq] at hf hg
  rw [hf] at hg
  cases f <;> cases g <;> first | rfl | exact absurd hg (by decide)

theorem fieldFor_eq_some_iff : fieldFor key = some f ↔ equalFold key f.key = true := by
  constructor
  · intro h
    rcases Option.or_eq_some_iff.mp h with hexact | ⟨-, hfold⟩
    · have hkey : f.key = key := by simpa using List.find?_some hexact
      exact hkey ▸ equalFold_self _
    · simpa using List.find?_some hfold
  · intro h
    have hall : f ∈ Field.all := by cases f <;> decide
    obtain ⟨g, hfold⟩ :=
      Option.isSome_iff_exists.mp
      (List.find?_isSome (p := fun f => equalFold key f.key) |>.mpr ⟨f, hall, h⟩)
    have hg : equalFold key g.key = true := by simpa using List.find?_some hfold
    rw [fieldFor, hfold, fold_unique hg h]
    cases hexact : Field.all.find? fun f => f.key = key with
    | none => rfl
    | some g' =>
      have hkey : g'.key = key := by simpa using List.find?_some hexact
      exact congrArg some (fold_unique (hkey ▸ equalFold_self _) h)

def CreateRequest.get (request : CreateRequest) : Field → GoString
  | .name => request.name
  | .description => request.description

theorem CreateRequest.get_set (request : CreateRequest) (f g : Field) (text : GoString) :
    (request.set f text).get g = if g = f then text else request.get g := by
  cases f <;> cases g <;> rfl

theorem CreateRequest.ext_get {r r' : CreateRequest} (h : ∀ f, r.get f = r'.get f) : r = r' :=
  CreateRequest.mk.injEq .. ▸ ⟨h .name, h .description⟩

-- ---------------------------------------------------------------------------
-- Members
-- ---------------------------------------------------------------------------

def names (f : Field) (m : Member) : Bool := (unquoteBytes m.1).any fun key => equalFold key f.key

def textFor (f : Field) (m : Member) : Option GoString :=
  if names f m then m.2.bind unquoteBytes else none

def lastText (f : Field) (ms : List Member) : GoString :=
  (ms.filterMap (textFor f)).getLast?.getD []

theorem names_iff : names f m = true ↔ (unquoteBytes m.1).bind fieldFor = some f := by
  unfold names
  cases unquoteBytes m.1 with
  | none => simp
  | some key => exact fieldFor_eq_some_iff.symm

theorem storeMember_eq (h : ScalarLiteral m.2) :
    storeMember request m.parsed =
      ((unquoteBytes m.1).bind fieldFor).map fun f => (m.2.bind unquoteBytes).elim request
      (request.set f) := by
  obtain ⟨key, value⟩ := m
  simp only [storeMember, Member.parsed, Option.bind_eq_bind]
  cases unquoteBytes key with
  | none => rfl
  | some key =>
    cases hfield : fieldFor key with
    | none => simp [hfield]
    | some f =>
      cases value with
      | none => simp [hfield, scalar]
      | some body =>
        obtain ⟨text, htext, -⟩ := unquoteBytes_literal (h body rfl)
        simp [hfield, scalar, htext]

/-- A member is stored exactly if its key is known, and then changes the field
it gives a string to. -/
theorem storeMember_iff (h : ScalarLiteral m.2) :
    storeMember request m.parsed = some r ↔
      (∃ f, names f m = true) ∧ ∀ g, r.get g = (textFor g m).getD (request.get g) := by
  rw [storeMember_eq h]
  simp only [textFor, names_iff]
  cases (unquoteBytes m.1).bind fieldFor with
  | none => simp
  | some f =>
    have hget (g : Field) : ((m.2.bind unquoteBytes).elim request (request.set f)).get g =
        (if some f = some g then m.2.bind unquoteBytes else none).getD (request.get g) := by
      cases m.2.bind unquoteBytes with
      | none => simp
      | some text => by_cases hg : f = g <;> simp [CreateRequest.get_set, hg, eq_comm]
    constructor
    · intro hr
      cases hr
      exact ⟨⟨f, rfl⟩, hget⟩
    · rintro ⟨-, hr⟩
      exact congrArg some (CreateRequest.ext_get fun g => (hget g).trans (hr g).symm)

theorem lastText_cons (f : Field) (m : Member) (ms : List Member) (start : GoString) :
    ((m :: ms).filterMap (textFor f)).getLast?.getD start =
      (ms.filterMap (textFor f)).getLast?.getD ((textFor f m).getD start) := by
  cases h : textFor f m with
  | none => rw [List.filterMap_cons_none h, Option.getD_none]
  | some text =>
    rw [List.filterMap_cons_some h, List.getLast?_cons]
    rfl

theorem storeMembers_iff {ms : List Member} (h : ∀ m ∈ ms, ScalarLiteral m.2) :
    (ms.map Member.parsed).foldlM storeMember request = some r ↔
      (∀ m ∈ ms, ∃ f, names f m = true) ∧
      ∀ g, r.get g = (ms.filterMap (textFor g)).getLast?.getD (request.get g) := by
  induction ms generalizing request with
  | nil =>
    simp only [List.map_nil, List.foldlM_nil, List.not_mem_nil, false_implies, implies_true,
      true_and, List.filterMap_nil, List.getLast?_nil, Option.getD_none]
    constructor
    · intro hr
      cases hr
      exact fun _ => rfl
    · exact fun hr => congrArg some (CreateRequest.ext_get fun g => (hr g).symm)
  | cons m ms ih =>
    obtain ⟨hm, hms⟩ := List.forall_mem_cons.mp h
    simp only [List.map_cons, List.foldlM_cons, Option.bind_eq_bind, Option.bind_eq_some_iff,
      lastText_cons, List.forall_mem_cons, storeMember_iff hm, ih hms]
    constructor
    · rintro ⟨r', ⟨hknown, hr'⟩, hrest, hr⟩
      exact ⟨⟨hknown, hrest⟩, fun g => hr' g ▸ hr g⟩
    · rintro ⟨⟨hknown, hrest⟩, hr⟩
      refine ⟨⟨(textFor .name m).getD request.name,
        (textFor .description m).getD request.description⟩,
        ⟨hknown, fun g => by cases g <;> rfl⟩, hrest, fun g => ?_⟩
      rw [hr g]
      cases g <;> rfl

theorem scalars_of_stored (h : parsed.foldlM storeMember request = some r) :
    ∃ ms : List Member, parsed = ms.map Member.parsed := by
  induction parsed generalizing request with
  | nil => exact ⟨[], rfl⟩
  | cons p parsed ih =>
    simp only [List.foldlM_cons, Option.bind_eq_bind, Option.bind_eq_some_iff] at h
    obtain ⟨r', hp, hrest⟩ := h
    obtain ⟨ms, rfl⟩ := ih hrest
    obtain ⟨key, value⟩ := p
    simp only [storeMember, Option.bind_eq_bind, Option.bind_eq_some_iff] at hp
    obtain ⟨_, _, _, _, hp⟩ := hp
    cases value with
    | null => exact ⟨(key, none) :: ms, rfl⟩
    | string body => exact ⟨(key, some body) :: ms, rfl⟩
    | bool | number | array | object => cases hp

-- ---------------------------------------------------------------------------
-- What is accepted
-- ---------------------------------------------------------------------------

theorem decodeNext_eof_iff : decodeNext body = .eof ↔ Blanks body.bytes ∧ body.broken = false := by
  rw [← skipBlanks_eq_nil_iff]
  unfold decodeNext
  constructor
  · intro h
    split at h
    · split_ifs at h
    · split_ifs at h with hend
      simpa using hend
  · rintro ⟨hblanks, hbroken⟩
    rw [readValue_blanks (skipBlanks_eq_nil_iff.mp hblanks)]
    simp [hblanks, hbroken]

theorem decodeNext_object_iff :
    decodeNext body = .value (.object parsed) rest ↔
    readValue body.bytes = some (.object parsed, rest) := by
  unfold decodeNext
  constructor
  · intro h
    split at h
    · split_ifs at h
      cases h
      assumption
    · split_ifs at h
  · intro h
    rw [h]
    rfl

theorem unmarshal_iff : unmarshal v = some (some r) ↔
    ∃ parsed, v = .object parsed ∧ parsed.foldlM storeMember ⟨[], []⟩ = some r := by
  cases v with
  | object parsed => simp [unmarshal]
  | null | bool | number | string | array => simp [unmarshal]

/-- The text is one object and blanks; each of its members is known, and each
field has the last string it is given. -/
def Describes (text : GoString) (r : CreateRequest) : Prop :=
  ∃ ms object blanks, text = object ++ blanks ∧ ObjectText ms object ∧ Blanks blanks ∧
    (∀ m ∈ ms, ∃ f, names f m = true) ∧ ∀ f, r.get f = lastText f ms

theorem maxBytesReader_broken : (maxBytesReader body limit).broken = false ↔
    body.broken = false ∧ body.bytes.length ≤ limit := by
  unfold maxBytesReader
  split_ifs with h <;> simp [h]

theorem bodyLimit_pos (maxBytes : Int) : 0 < bodyLimit maxBytes := by
  unfold bodyLimit
  split_ifs with h
  · decide
  · exact Int.not_le.mp h

theorem decodeStrictJSON_eq_some : decodeStrictJSON upload maxBytes = some request ↔
    ∃ body, upload.body = some body ∧ upload.contentLength ≤ bodyLimit maxBytes ∧
      ∃ v rest, decodeNext (maxBytesReader body (bodyLimit maxBytes).toNat) = .value v rest ∧
        unmarshal v = some request ∧
        decodeNext ⟨rest, (maxBytesReader body (bodyLimit maxBytes).toNat).broken⟩ = .eof := by
  simp only [decodeStrictJSON, Option.bind_eq_bind, Option.bind_eq_some_iff]
  refine exists_congr fun body => and_congr_right fun _ => ?_
  split_ifs with hlength
  · simp [hlength]
  rw [and_iff_right (Int.not_lt.mp hlength)]
  constructor
  · intro h
    split at h
    case h_1 v rest hvalue =>
      obtain ⟨request', hrequest, h⟩ := Option.bind_eq_some_iff.mp h
      split at h
      case h_1 heof =>
        cases h
        exact ⟨v, rest, hvalue, hrequest, heof⟩
      all_goals cases h
    all_goals cases h
  · rintro ⟨v, rest, hvalue, hrequest, heof⟩
    simp only [hvalue, hrequest, heof, Option.bind_some]

/-- A request is taken from a body exactly if the body arrives whole, within the
limit, and describes it. -/
theorem decodeStrictJSON_iff : decodeStrictJSON upload maxBytes = some (some r) ↔
    ∃ body, upload.body = some body ∧ body.broken = false ∧
    upload.contentLength ≤ bodyLimit maxBytes ∧
      body.bytes.length ≤ bodyLimit maxBytes ∧ Describes body.bytes r := by
  have hlimit := bodyLimit_pos maxBytes
  rw [decodeStrictJSON_eq_some]
  refine exists_congr fun body => and_congr_right fun _ => ?_
  constructor
  · rintro ⟨hlength, v, rest, hvalue, hrequest, heof⟩
    obtain ⟨hblanks, hwhole⟩ := decodeNext_eof_iff.mp heof
    obtain ⟨hbroken, hbytes⟩ := maxBytesReader_broken.mp hwhole
    obtain ⟨parsed, rfl, hstored⟩ := unmarshal_iff.mp hrequest
    obtain ⟨ms, rfl⟩ := scalars_of_stored hstored
    rw [maxBytesReader, if_pos hbytes, decodeNext_object_iff] at hvalue
    obtain ⟨object, hobject, htext⟩ := readValue_object_iff.mp hvalue
    obtain ⟨hknown, hfields⟩ := (storeMembers_iff fun m hm => (hobject.literals m hm).2).mp hstored
    refine ⟨hbroken, hlength,
      by omega, ms, object, rest, htext, hobject, hblanks, hknown, fun f => ?_⟩
    rw [hfields f]
    cases f <;> rfl
  · rintro ⟨hbroken, hlength, hbytes, ms, object, blanks, htext, hobject, hblanks, hknown, hfields⟩
    have hreader : maxBytesReader body (bodyLimit maxBytes).toNat = body := if_pos (by omega)
    rw [hreader]
    refine ⟨hlength, .object (ms.map Member.parsed), blanks,
      decodeNext_object_iff.mpr (readValue_object_iff.mpr ⟨object, hobject, htext⟩), ?_,
      decodeNext_eof_iff.mpr ⟨hblanks, hbroken⟩⟩
    refine unmarshal_iff.mpr ⟨_, rfl, (storeMembers_iff fun m hm => (hobject.literals m hm).2).mpr
      ⟨hknown, fun f => ?_⟩⟩
    rw [hfields f]
    cases f <;> rfl

-- ---------------------------------------------------------------------------
-- The fields of an accepted body
-- ---------------------------------------------------------------------------

theorem textFor_valid (h : ScalarLiteral m.2) (ht : textFor f m = some text) :
    validString text = true := by
  unfold textFor at ht
  split_ifs at ht
  obtain ⟨body, hbody, hunquote⟩ := Option.bind_eq_some_iff.mp ht
  obtain ⟨text', htext', hvalid⟩ := unquoteBytes_literal (h body hbody)
  cases hunquote.symm.trans htext'
  exact hvalid

theorem Describes.valid (h : Describes text r) (f : Field) : validString (r.get f) = true := by
  obtain ⟨ms, object, blanks, -, hobject, -, -, hfields⟩ := h
  rw [hfields f, lastText]
  cases hlast : (ms.filterMap (textFor f)).getLast? with
  | none => decide
  | some last =>
    obtain ⟨m, hm, htext⟩ := List.mem_filterMap.mp (List.mem_of_getLast? hlast)
    exact textFor_valid (hobject.literals m hm).2 htext

theorem literal_key (f : Field) : Literal f.key := by
  cases f with
  | name => exact (literal_of_takeBody (s := str "name\"") rfl).1
  | description => exact (literal_of_takeBody (s := str "description\"") rfl).1

theorem names_key (f g : Field) (value : Option GoString) :
    names f (g.key, value) = decide (f = g) := by
  have hkeys : (unquoteBytes g.key).any (equalFold · f.key) = decide (f = g) := by
    cases f <;> cases g <;> decide
  exact hkeys

theorem textFor_key (hbody : unquoteBytes body = some text) :
    textFor f (g.key, some body) = if f = g then some text else none := by
  rw [textFor, names_key]
  by_cases h : f = g <;> simp [h, hbody]

def CreateRequest.marshal (request : CreateRequest) : GoString :=
  marshalPair Field.name.key Field.description.key request.name request.description

theorem describes_marshal {r : CreateRequest} (hname : validString r.name = true)
    (hdescription : validString r.description = true) : Describes r.marshal r := by
  obtain ⟨hn, hn'⟩ := unquoteBytes_escape hname
  obtain ⟨hd, hd'⟩ := unquoteBytes_escape hdescription
  have hmember {body : GoString} (f : Field) (h : Literal body) :
      MemberText (f.key, some body) (quoted f.key ++ 0x3a :: scalarText (some body)) :=
    .plain (literal_key f) fun _ hb => Option.some.inj hb ▸ h
  refine ⟨_, _, [], ?_, .members .nil (.cons (hmember .name hn) (.last (hmember .description hd))),
    .nil, ?_, fun f => ?_⟩
  · have hopen : str "\x7b\"" = [0x7b, 0x22] := by decide
    have hcolon : str "\":" = [0x22, 0x3a] := by decide
    have hcomma : str ",\"" = [0x2c, 0x22] := by decide
    have hclose : str "\x7d" = [0x7d] := by decide
    simp [CreateRequest.marshal, marshalPair, quote, quoted, scalarText, hopen,
      hcolon, hcomma, hclose]
  · simp only [List.mem_cons, List.not_mem_nil, or_false]
    rintro m (rfl | rfl)
    · exact ⟨.name, names_key .name .name _⟩
    · exact ⟨.description, names_key .description .description _⟩
  · cases f <;> simp [lastText, textFor_key hn', textFor_key hd', CreateRequest.get]

/-- Whatever bytes are accepted, the fields read from them are valid UTF-8; and
every request with such fields is read back from what `json.Marshal` writes. -/
theorem create_body_round_trip (upload : Upload) (maxBytes : Int) (r : CreateRequest) :
    (decodeStrictJSON upload maxBytes = some (some r) →
      validString r.name = true ∧ validString r.description = true) ∧
    (validString r.name = true → validString r.description = true →
      upload.body = some ⟨r.marshal, false⟩ → upload.contentLength ≤ bodyLimit maxBytes →
      r.marshal.length ≤ bodyLimit maxBytes →
      decodeStrictJSON upload maxBytes = some (some r)) := by
  refine ⟨fun h => ?_, fun hname hdescription hbody hlength hbytes => ?_⟩
  · obtain ⟨body, -, -, -, -, hdescribes⟩ := decodeStrictJSON_iff.mp h
    exact ⟨hdescribes.valid .name, hdescribes.valid .description⟩
  · exact decodeStrictJSON_iff.mpr
      ⟨_, hbody, rfl, hlength, hbytes, describes_marshal hname hdescription⟩

/-- A name that `json.Marshal` escapes, in a body of unknown length. -/
theorem create_body_round_trip_escaped :
    decodeStrictJSON ⟨-1, some ⟨CreateRequest.marshal ⟨str "a\"<é\n", []⟩, false⟩⟩ 0 =
      some (some ⟨str "a\"<é\n", []⟩) :=
  (create_body_round_trip _ 0 ⟨str "a\"<é\n", []⟩).2 (by decide +kernel) (by decide) rfl (by decide)
    (by decide +kernel)

end GoClean.HttpApi

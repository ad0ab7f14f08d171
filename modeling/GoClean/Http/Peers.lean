import GoClean.Go.NetLaws
import GoClean.Http.FailedCredentials

/-!
# Direct peers

With authentication disabled a caller is the address its connection comes
from: the limiter's key and the scope of idempotent creates are made from
`RemoteAddr`. An address with a zone is not read by `ParseIP`, so that all
such peers are one caller.
-/

namespace GoClean.Http

open Go Auth RateLimit

def Net.go : Net where
  splitHostPort hostport := (Go.splitHostPort hostport).map Prod.fst
  parseIP text := (Go.parseIP text).map IP.string

def address (peer : TCPAddr) : IP × GoString := (peer.ip, peer.zone)

def attachedScope : Option Handled → Option GoString
  | some ⟨.next _ context, _, _⟩ => some (idempotencyScopeFromContext context)
  | _ => none

/-- A request under `/api/v1` on a connection from the peer. -/
def FromPeer (r : Incoming) (peer : TCPAddr) : Prop :=
  ∃ request, r.request = some request ∧ request.remoteAddr = peer.string ∧
    isVersionedAPIPath request.path = true

-- ---------------------------------------------------------------------------
-- Remote addresses
-- ---------------------------------------------------------------------------

theorem portText_digits (peer : TCPAddr) : ∀ b ∈ peer.portText, isDigit b = true := by
  intro b hb
  obtain ⟨c, hc, rfl⟩ := List.mem_map.mp hb
  have hdigit := Nat.isDigit_of_mem_toDigits (by decide) (by decide) hc
  simp only [Char.isDigit, Bool.and_eq_true, decide_eq_true_eq, UInt32.le_iff_toNat_le] at hdigit
  obtain ⟨hlow, hhigh⟩ := hdigit
  change 48 ≤ c.toNat at hlow
  change c.toNat ≤ 57 at hhigh
  rw [isDigit, decide_eq_true_eq, UInt8.le_iff_toNat_le, UInt8.le_iff_toNat_le, UInt8.toNat_ofNat']
  change 48 ≤ c.toNat % 2 ^ 8 ∧ c.toNat % 2 ^ 8 ≤ 57
  omega

theorem portText_plain (peer : TCPAddr) : ∀ b ∈ peer.portText, splitsHostPort b = false := by
  have hplain : ∀ b, isDigit b = true → splitsHostPort b = false := forall_byte (by decide +kernel)
  exact fun b hb => hplain b (portText_digits peer b hb)

def hostText (peer : TCPAddr) : GoString :=
  if peer.zone ≠ [] then peer.ip.string ++ 37 :: peer.zone else peer.ip.string

theorem string_eq (peer : TCPAddr) : peer.string = joinHostPort (hostText peer) peer.portText := by
  unfold TCPAddr.string hostText
  split <;> rfl

theorem portText_ne_nil (peer : TCPAddr) : peer.portText ≠ [] := by
  simp [TCPAddr.portText, Nat.toDigits_ne_nil]

theorem ipString_ne_nil (ip : IP) : ip.string ≠ [] := by
  intro h
  have hparse := parseIP_string ip
  rw [h] at hparse
  cases hparse

/-- Up to the last colon, a remote address is the host or the host in
brackets. -/
theorem string_split (peer : TCPAddr) : ∃ before, peer.string = before ++ 58 :: peer.portText ∧
    (∀ b ∈ hostText peer, b ∈ before) ∧ ∃ first ∈ before.head?, first = 91 ∨
    IP.addressByte first = true := by
  obtain ⟨first, hfirst⟩ : ∃ b, peer.ip.string.head? = some b :=
    ⟨_, List.head?_eq_some_head (ipString_ne_nil peer.ip)⟩
  have hhead : (hostText peer).head? = some first := by
    unfold hostText
    split
    · rw [List.head?_append, hfirst, Option.some_or]
    · exact hfirst
  rw [string_eq, joinHostPort]
  split
  · exact ⟨91 :: hostText peer ++ [93], by simp, fun b hb => by simp [hb], 91, rfl, .inl rfl⟩
  · exact ⟨hostText peer, rfl, fun b hb => hb, first, hhead,
      .inr (IP.string_bytes (List.mem_of_head? hfirst))⟩

theorem trimSpace_string (peer : TCPAddr) : trimSpace peer.string = peer.string := by
  have hfirst : ∀ b, b = 91 ∨ IP.addressByte b = true → b < 0x80 ∧ isSpace b.toNat = false :=
    forall_byte (by decide +kernel)
  have hlast : ∀ b, isDigit b = true → b < 0x80 ∧ isSpace b.toNat = false :=
    forall_byte (by decide +kernel)
  obtain ⟨before, hstring, -, first, hhead, hbyte⟩ := string_split peer
  obtain ⟨last, hend⟩ : ∃ b, peer.portText.getLast? = some b :=
    ⟨_, List.getLast?_eq_some_getLast (portText_ne_nil peer)⟩
  have hstart : peer.string.head? = some first := by
    rw [hstring, List.head?_append, hhead, Option.some_or]
  have hstop : peer.string.getLast? = some last := by
    rw [hstring, List.getLast?_append, List.getLast?_cons, hend]
    rfl
  exact trimSpace_of_ends hstart (hfirst first hbyte) hstop
    (hlast last (portText_digits peer last (List.mem_of_getLast? hend)))

-- ---------------------------------------------------------------------------
-- Keys
-- ---------------------------------------------------------------------------

theorem clientRateKey_peer {peer : TCPAddr} {request : Request}
    (h : request.remoteAddr = peer.string) :
    clientRateKey Net.go (some request) =
      if peer.zone = [] then addressKeyPrefix ++ peer.ip.string else anonymousRateKey := by
  simp only [clientRateKey, h, trimSpace_string]
  by_cases hzone : peer.zone = []
  · have hhost : hostText peer = peer.ip.string := if_neg (not_not.mpr hzone)
    have hsplit : Go.splitHostPort peer.string = some (peer.ip.string, peer.portText) := by
      have hplain : ∀ b ∈ peer.ip.string, b ≠ 91 ∧ b ≠ 93 := fun b hb =>
        (forall_byte (by decide +kernel) : ∀ b, IP.addressByte b = true → b ≠ 91 ∧
          b ≠ 93) b (IP.string_bytes hb)
      rw [string_eq, hhost]
      exact splitHostPort_joinHostPort ⟨fun hb => (hplain 91 hb).1 rfl,
        fun hb => (hplain 93 hb).2 rfl⟩
        (portText_plain peer)
    rw [if_pos hzone]
    simp only [Net.go, hsplit, Option.map_some, Option.getD_some, parseIP_string]
  · have hhost : 37 ∈ hostText peer := by
      rw [hostText, if_pos hzone]
      exact List.mem_append_right _ List.mem_cons_self
    obtain ⟨before, hstring, hmem, -⟩ := string_split peer
    have hport : 58 ∉ peer.portText := fun hb => absurd (portText_plain peer 58 hb) (by decide)
    have haddress : 37 ∈ (Net.go.splitHostPort peer.string).getD peer.string := by
      cases hsplit : Go.splitHostPort peer.string with
      | none =>
        simp only [Net.go, hsplit, Option.map_none, Option.getD_none]
        rw [hstring]
        exact List.mem_append_left _ (hmem 37 hhost)
      | some parts =>
        simp only [Net.go, hsplit, Option.map_some, Option.getD_some]
        rw [hstring] at hsplit
        exact mem_host_of_splitHostPort hport hsplit (hmem 37 hhost) (by decide) (by decide)
    have hnone : Net.go.parseIP ((Net.go.splitHostPort peer.string).getD peer.string) = none := by
      simp only [Net.go, Option.map_eq_none_iff]
      exact parseIP_of_zone haddress
    rw [if_neg hzone, hnone]

theorem clientRateKey_ne_principal (net : Net) (request : Option Request) (H : Hashes)
    (subject : GoString) :
    clientRateKey net request ≠ principalRateKey H subject := by
  intro h
  have hprincipal : (principalRateKey H subject).take 1 = str "p" :=
    List.take_append_of_le_length (by decide)
  have hclient : (clientRateKey net request).take 1 = str "a" := by
    cases request with
    | none => exact show anonymousRateKey.take 1 = str "a" by decide
    | some request =>
      simp only [clientRateKey]
      split
      · exact List.take_append_of_le_length (by decide)
      · decide
  rw [← h, hclient] at hprincipal
  exact absurd hprincipal (by decide)

theorem clientRateKey_eq_iff {p q : TCPAddr} {request request' : Request}
    (hp : request.remoteAddr = p.string) (hq : request'.remoteAddr = q.string) :
    clientRateKey Net.go (some request) = clientRateKey Net.go (some request') ↔
      address p = address q ∨ p.zone ≠ [] ∧ q.zone ≠ [] := by
  have hshared : ∀ text, addressKeyPrefix ++ text ≠ anonymousRateKey := by
    intro text h
    have htwo : (addressKeyPrefix ++ text).take 2 = addressKeyPrefix.take 2 :=
      List.take_append_of_le_length (by decide)
    rw [h] at htwo
    exact absurd htwo (by decide)
  rw [clientRateKey_peer hp, clientRateKey_peer hq, address, address, Prod.mk.injEq]
  by_cases hzone : p.zone = [] <;> by_cases hzone' : q.zone = []
  · simp only [hzone, hzone', if_true, List.append_cancel_left_eq, and_true, ne_eq,
      not_true_eq_false, and_false, or_false]
    exact ⟨IP.string_injective, fun h => by rw [h]⟩
  · simp [hzone, hzone', hshared, Ne.symm hzone']
  · simp [hzone, hzone', (hshared _).symm]
  · simp [hzone, hzone']

-- ---------------------------------------------------------------------------
-- Scopes
-- ---------------------------------------------------------------------------

def scopeOf (ctx : Context) (key : GoString) : GoString :=
  idempotencyScopeFromContext (withIdempotencyScope (some ctx) (str "items:create:" ++ key))

def unusableScope (scope : GoString) : Bool :=
  decide (scope = [] ∨ 512 < scope.length) || !validString scope || hasControl scope

theorem createScope_ne_nil (key : GoString) : str "items:create:" ++ key ≠ [] :=
  fun h => absurd (List.append_eq_nil_iff.mp h).1 (by decide)

theorem scopeOf_eq (ctx : Context) (key : GoString) : scopeOf ctx key =
    if unusableScope (str "items:create:" ++ key) then defaultIdempotencyScope else
    str "items:create:" ++ key := by
  have hdefault : defaultIdempotencyScope ≠ [] := by decide
  simp only [scopeOf, withIdempotencyScope, Option.map_some, idempotencyScopeFromContext]
  rw [← unusableScope]
  cases unusableScope (str "items:create:" ++ key) with
  | true => simp only [if_true, hdefault, if_false]
  | false => simp only [Bool.false_eq_true, if_false, createScope_ne_nil key]

def plainByte (b : UInt8) : Bool := decide (b < 0x80) && !isControl b.toNat

theorem scopeOf_plain (ctx : Context) (hkey : ∀ b ∈ key, plainByte b = true)
    (hlen : key.length ≤ 400) :
    scopeOf ctx key = str "items:create:" ++ key := by
  have hstart : (str "items:create:").all plainByte = true := by decide
  have hplain : ∀ b ∈ str "items:create:" ++ key, b < 0x80 ∧ isControl b.toNat = false := by
    intro b hb
    have hb : plainByte b = true :=
      (List.mem_append.mp hb).elim (List.all_eq_true.mp hstart b) (hkey b)
    simpa [plainByte] using hb
  have hascii : ∀ b ∈ str "items:create:" ++ key, b < 0x80 := fun b hb => (hplain b hb).1
  have hcontrol : hasControl (str "items:create:" ++ key) = false := by
    rw [hasControl, chunks_of_ascii hascii, List.any_map, List.any_eq_false]
    intro b hb
    rw [Function.comp_apply, rune_of_ascii (hascii b hb), (hplain b hb).2]
    decide
  have hshort : ¬512 < (str "items:create:" ++ key).length := by
    have hthirteen : (str "items:create:").length = 13 := by decide
    rw [List.length_append, hthirteen]
    omega
  have hgood : unusableScope (str "items:create:" ++ key) = false := by
    rw [unusableScope, validString_of_ascii hascii, hcontrol,
      decide_eq_false (not_or.mpr ⟨createScope_ne_nil key, hshort⟩)]
    rfl
  rw [scopeOf_eq, hgood, if_neg Bool.false_ne_true]

theorem scopeOf_peer {peer : TCPAddr} {request : Request} (h : request.remoteAddr = peer.string)
    (ctx : Context) :
    scopeOf ctx (clientRateKey Net.go (some request)) = str "items:create:" ++
      clientRateKey Net.go (some request) := by
  have haddress : ∀ b, IP.addressByte b = true → plainByte b = true :=
    forall_byte (by decide +kernel)
  rw [clientRateKey_peer h]
  split
  · refine scopeOf_plain ctx (fun b hb => ?_) ?_
    · exact (List.mem_append.mp hb).elim (List.all_eq_true.mp (by decide) b) fun hb =>
        haddress b (IP.string_bytes hb)
    · have hlen := IP.length_string_le peer.ip
      have height : addressKeyPrefix.length = 8 := by decide
      rw [List.length_append, height]
      omega
  · exact scopeOf_plain ctx (List.all_eq_true.mp (by decide)) (by decide)

section
variable {H : Hashes} {net : Net} {limiter : Option Limiter} {buckets : Buckets} {r : Incoming}

theorem attachedScope_allowed {allowed : List Header → Option Decision → Handled}
    (h : attachedScope (some (allowSecurityRequest limiter buckets now key allowed).2) =
      some scope) :
    ∃ headers decision, attachedScope (some (allowed headers decision)) = some scope := by
  cases limiter with
  | none => exact ⟨_, _, h⟩
  | some l =>
    simp only [allowSecurityRequest] at h
    split at h
    · exact ⟨_, _, h⟩
    · cases h

theorem attachedScope_proceed (hr : r.request = some request)
    (h : attachedScope (some (proceed H net limiter buckets r principal).2) = some scope) :
    scope = scopeOf r.context (match principal with
      | some p => principalRateKey H p.subject
      | none => clientRateKey net r.request) := by
  obtain ⟨_, _, hnext⟩ := attachedScope_allowed h
  rw [hr] at hnext ⊢
  cases principal <;> exact (Option.some.inj hnext).symm

theorem attachedScope_peer (hr : r.request = some request)
    (h : attachedScope (apiSecurityMiddleware H net none limiter buckets r).2 = some scope) :
    scope = scopeOf r.context (clientRateKey net (some request)) := by
  unfold apiSecurityMiddleware at h
  split at h
  · have h : attachedScope (some (proceed H net limiter buckets r none).2) = some scope := h
    have hscope := attachedScope_proceed hr h
    rwa [hr] at hscope
  · cases h

theorem attachedScope_principal
    (h : attachedScope (apiSecurityMiddleware H net (some v) limiter buckets r).2 = some scope) :
    ∃ subject, scope = scopeOf r.context (principalRateKey H subject) := by
  unfold apiSecurityMiddleware at h
  split at h
  · next hpath =>
    obtain ⟨request, hr⟩ : ∃ request, r.request = some request :=
      Option.isSome_iff_exists.mp (Option.isSome_of_any hpath)
    simp only [securityMiddleware, hr, Option.isNone_some, Bool.false_eq_true, if_false] at h
    split at h
    · obtain ⟨_, _, habort⟩ := attachedScope_allowed h
      cases habort
    · split at h
      · cases h
      · next principal _ => exact ⟨principal.subject, attachedScope_proceed hr h⟩
  · cases h

end

-- ---------------------------------------------------------------------------
-- Separation
-- ---------------------------------------------------------------------------

/-- Two peers are kept apart: their keys, and the scopes of their requests,
are equal exactly when their addresses are. -/
def KeptApart (H : Hashes) (r r' : Incoming) (p q : TCPAddr) : Prop :=
  (clientRateKey Net.go r.request = clientRateKey Net.go r'.request ↔ address p = address q) ∧
  ∀ limiter limiter' buckets buckets' scope scope',
    attachedScope (apiSecurityMiddleware H Net.go none limiter buckets r).2 = some scope →
    attachedScope (apiSecurityMiddleware H Net.go none limiter' buckets' r').2 = some scope' →
    (scope = scope' ↔ address p = address q)

/-- Neither key nor scope of the request is one of an authenticated request. -/
def NoPrincipal (H : Hashes) (r : Incoming) : Prop :=
  (∀ subject, clientRateKey Net.go r.request ≠ principalRateKey H subject) ∧
  ∀ net v limiter limiter' buckets buckets' other scope scope',
    attachedScope (apiSecurityMiddleware H Net.go none limiter buckets r).2 = some scope →
    attachedScope (apiSecurityMiddleware H net (some v) limiter' buckets' other).2 = some scope' →
    scope ≠ scope'

theorem noPrincipal_of_peer (H : Hashes) (h : FromPeer r peer) : NoPrincipal H r := by
  obtain ⟨request, hr, haddr, -⟩ := h
  refine ⟨fun subject => clientRateKey_ne_principal Net.go r.request H subject, ?_⟩
  intro net v limiter limiter' buckets buckets' other scope scope' hscope hscope' heq
  obtain ⟨subject, hprincipal⟩ := attachedScope_principal hscope'
  have hpeer := (attachedScope_peer hr hscope).trans (scopeOf_peer haddr r.context)
  rw [scopeOf_eq] at hprincipal
  split at hprincipal
  · -- the default ends where the key of the peer begins
    have hlen := congrArg List.length (hpeer.symm.trans (heq.trans hprincipal))
    have hdefault : defaultIdempotencyScope.length < (str "items:create:").length := by decide
    rw [List.length_append] at hlen
    omega
  · have hkeys := List.append_cancel_left (hpeer.symm.trans (heq.trans hprincipal))
    exact clientRateKey_ne_principal Net.go (some request) H subject hkeys

/-- Two peers are kept apart if and only if they do not both have a zone and
different addresses. No peer is taken for a principal. -/
theorem peers_keptApart_iff (H : Hashes) (hp : FromPeer r p) (hq : FromPeer r' q) :
    (KeptApart H r r' p q ↔ (p.zone ≠ [] → q.zone ≠ [] → address p = address q)) ∧
    NoPrincipal H r ∧ NoPrincipal H r' := by
  refine ⟨?_, noPrincipal_of_peer H hp, noPrincipal_of_peer H hq⟩
  obtain ⟨request, hr, haddr, -⟩ := hp
  obtain ⟨request', hr', haddr', -⟩ := hq
  have hkeys := clientRateKey_eq_iff haddr haddr'
  rw [KeptApart, hr, hr', hkeys]
  constructor
  · exact fun h hzone hzone' => h.1.mp (.inr ⟨hzone, hzone'⟩)
  · intro h
    have hexact : address p = address q ∨ p.zone ≠ [] ∧ q.zone ≠ [] ↔ address p = address q :=
      ⟨fun hor => hor.elim id fun hzones => h hzones.1 hzones.2, .inl⟩
    refine ⟨hexact, fun limiter limiter' buckets buckets' scope scope' hscope hscope' => ?_⟩
    rw [(attachedScope_peer hr hscope).trans (scopeOf_peer haddr r.context),
      (attachedScope_peer hr' hscope').trans (scopeOf_peer haddr' r'.context),
      List.append_cancel_left_eq, hkeys]
    exact hexact

def linkLocal (host : UInt16) (zone : GoString) : TCPAddr where
  ip := ⟨[0xfe80, 0, 0, 0, 0, 0, 0, host], rfl⟩
  zone := zone
  port := 40000

def createFrom (peer : TCPAddr) : Incoming where
  now := .ofSec 0
  request := some { header := [], remoteAddr := peer.string, path := "/api/v1/items" }

theorem createFrom_peer (peer : TCPAddr) : FromPeer (createFrom peer) peer :=
  ⟨_, rfl, rfl, show isVersionedAPIPath (str "/api/v1/items") = true by decide⟩

/-- A zone is enough to tell a peer from one without. -/
theorem peers_keptApart_one_zone :
    clientRateKey Net.go (createFrom (linkLocal 1 "eth0")).request ≠
      clientRateKey Net.go (createFrom (linkLocal 2 [])).request := by
  have h := ((peers_keptApart_iff Hashes.go (createFrom_peer (linkLocal 1 "eth0"))
    (createFrom_peer (linkLocal 2 []))).1.mpr fun _ hzone => absurd rfl hzone).1
  exact fun heq => absurd (h.mp heq) (by decide)

/-- Two hosts of one link have one key and one scope. -/
theorem link_local_peers_share_scope :
    address (linkLocal 1 "eth0") ≠ address (linkLocal 2 "eth0") ∧
    (linkLocal 1 "eth0").string = str "[fe80::1%eth0]:40000" ∧
    (linkLocal 2 "eth0").string = str "[fe80::2%eth0]:40000" ∧
    clientRateKey Net.go (createFrom (linkLocal 1 "eth0")).request =
      clientRateKey Net.go (createFrom (linkLocal 2 "eth0")).request ∧
    attachedScope (apiSecurityMiddleware Hashes.go Net.go none none ∅
      (createFrom (linkLocal 1 "eth0"))).2 =
      some (str "items:create:anonymous") ∧
    attachedScope (apiSecurityMiddleware Hashes.go Net.go none none ∅
      (createFrom (linkLocal 2 "eth0"))).2 =
      some (str "items:create:anonymous") := by
  decide +kernel

end GoClean.Http

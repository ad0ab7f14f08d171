import GoClean.Auth.Bearer

/-!
# The grammar of Bearer credentials

`ParseBearerHeader` accepts one value: the scheme in any case, one space and
a token of the b64token alphabet with padding at its end. The checks overlap,
but each string they reject fails the grammar, and the Unicode rules of
`EqualFold` and `TrimSpace` admit and reject nothing more.
-/

namespace GoClean.Auth

open Go

def tokenAlphabet : GoString :=
  "ABCDEFGHIJKLMNOPQRSTUVWXYZabcdefghijklmnopqrstuvwxyz0123456789-._~+/"

def IsToken (token : GoString) : Prop :=
  ∃ characters padding, token = characters ++ List.replicate padding 61 ∧ characters ≠ [] ∧
    ∀ c ∈ characters, c ∈ tokenAlphabet

/-- One value: a case variant of `Bearer`, a space and a token. -/
def IsCredentials (values : List GoString) (token : GoString) : Prop :=
  ∃ scheme, values = [scheme ++ 32 :: token] ∧ toLower scheme = "bearer" ∧ IsToken token ∧
    token.length ≤ maxBearerTokenBytes

-- ---------------------------------------------------------------------------
-- Tokens
-- ---------------------------------------------------------------------------

theorem isTokenCharacter_iff (c : UInt8) : isTokenCharacter c = true ↔ c ∈ tokenAlphabet := by
  constructor
  · revert c
    exact forall_byte (by decide +kernel)
  · have hall : tokenAlphabet.all isTokenCharacter = true := by decide +kernel
    exact List.all_eq_true.mp hall c

theorem token_byte (c : UInt8) :
    c ∈ tokenAlphabet ∨ c = 61 → c < 0x80 ∧ c ≠ 32 ∧ isSpace c.toNat = false := by
  rw [← isTokenCharacter_iff]
  revert c
  exact forall_byte (by decide +kernel)

theorem validTokenTail_iff : validTokenTail s = true ↔
    ∃ characters padding, s = characters ++ List.replicate padding 61 ∧ ∀ c ∈ characters,
    c ∈ tokenAlphabet := by
  induction s with
  | nil => exact ⟨fun _ => ⟨[], 0, rfl, by simp⟩, fun _ => rfl⟩
  | cons c s ih =>
    have hpad : isTokenCharacter 61 = false := by decide
    rw [validTokenTail]
    split
    · next hc =>
      rw [ih]
      constructor
      · rintro ⟨characters, padding, rfl, hall⟩
        exact ⟨c :: characters, padding, rfl,
          List.forall_mem_cons.mpr ⟨(isTokenCharacter_iff c).mp hc, hall⟩⟩
      · rintro ⟨characters, padding, heq, hall⟩
        cases characters with
        | nil =>
          cases padding with
          | zero => cases heq
          | succ n =>
            rw [(List.cons.inj heq).1, hpad] at hc
            cases hc
        | cons _ rest =>
          obtain ⟨rfl, rfl⟩ := List.cons.inj heq
          exact ⟨rest, padding, rfl, fun x hx => hall x (List.mem_cons_of_mem _ hx)⟩
    · next hc =>
      -- no character: only padding may follow
      have hnot : c ∉ tokenAlphabet := fun hmem => hc ((isTokenCharacter_iff c).mpr hmem)
      constructor
      · intro h
        split at h
        · next heq =>
          have hrest : s = List.replicate s.length 61 :=
            List.eq_replicate_of_mem fun b hb => beq_iff_eq.mp (List.all_eq_true.mp h b hb)
          exact ⟨[], s.length + 1, by rw [heq, hrest]; simp [List.replicate_succ], by simp⟩
        · cases h
      · rintro ⟨characters, padding, heq, hall⟩
        cases characters with
        | cons a rest => exact absurd ((List.cons.inj heq).1 ▸ hall a List.mem_cons_self) hnot
        | nil =>
          cases padding with
          | zero => cases heq
          | succ n =>
            obtain ⟨rfl, rfl⟩ := List.cons.inj heq
            simp

theorem validBearerToken_iff : validBearerToken token = true ↔ IsToken token := by
  rw [validBearerToken, Bool.and_eq_true, validTokenTail_iff]
  constructor
  · rintro ⟨hhead, characters, padding, rfl, hall⟩
    refine ⟨characters, padding, rfl, ?_, hall⟩
    rintro rfl
    cases padding <;> simp [List.replicate_succ] at hhead
  · rintro ⟨characters, padding, rfl, hne, hall⟩
    refine ⟨?_, characters, padding, rfl, hall⟩
    cases characters with
    | nil => exact absurd rfl hne
    | cons c rest =>
      have hc : c ≠ 61 := by
        rintro rfl
        exact absurd (hall 61 List.mem_cons_self) (by decide)
      simp [hc]

theorem IsToken.bytes (h : IsToken token) :
    ∀ c ∈ token, c < 0x80 ∧ c ≠ 32 ∧ isSpace c.toNat = false := by
  obtain ⟨characters, padding, rfl, -, hall⟩ := h
  intro c hc
  refine token_byte c ((List.mem_append.mp hc).imp (hall c) fun hpad => ?_)
  exact List.eq_of_mem_replicate hpad

theorem IsToken.ne_nil (h : IsToken token) : token ≠ [] := by
  obtain ⟨characters, padding, rfl, hne, -⟩ := h
  simp [hne]

-- ---------------------------------------------------------------------------
-- The header
-- ---------------------------------------------------------------------------

theorem equalFold_bearer : equalFold scheme "Bearer" = true ↔ toLower scheme = "bearer" :=
  equalFold_iff (by decide)

theorem equalFold_authorization :
    equalFold key "Authorization" = true ↔ toLower key = "authorization" :=
  equalFold_iff (by decide)

theorem scheme_byte (b : UInt8) :
    lowerByte b ∈ str "bearer" → b < 0x80 ∧ b ≠ 32 ∧ isSpace b.toNat = false := by
  revert b
  exact forall_byte (by decide +kernel)

theorem scheme_bytes (h : toLower scheme = "bearer") :
    scheme.length = 6 ∧ ∀ b ∈ scheme, b < 0x80 ∧ b ≠ 32 ∧ isSpace b.toNat = false := by
  refine ⟨?_, fun b hb => scheme_byte b (h ▸ List.mem_map_of_mem hb)⟩
  have hlen := congrArg List.length h
  rwa [toLower, List.length_map] at hlen

theorem trimSpace_credentials (hscheme : ∀ b ∈ scheme, b < 0x80 ∧ b ≠ 32 ∧ isSpace b.toNat = false)
    (htoken : ∀ b ∈ token, b < 0x80 ∧ b ≠ 32 ∧ isSpace b.toNat = false) (hs : scheme ≠ [])
    (ht : token ≠ []) :
    trimSpace (scheme ++ 32 :: token) = scheme ++ 32 :: token := by
  obtain ⟨first, hfirst⟩ : ∃ b, scheme.head? = some b := ⟨_, List.head?_eq_some_head hs⟩
  obtain ⟨last, hlast⟩ : ∃ b, token.getLast? = some b := ⟨_, List.getLast?_eq_some_getLast ht⟩
  obtain ⟨hascii, -, hspace⟩ := hscheme first (List.mem_of_head? hfirst)
  obtain ⟨hascii', -, hspace'⟩ := htoken last (List.mem_of_getLast? hlast)
  have hstart : (scheme ++ 32 :: token).head? = some first := by
    rw [List.head?_append, hfirst, Option.some_or]
  have hend : (scheme ++ 32 :: token).getLast? = some last := by
    rw [List.getLast?_append, List.getLast?_cons, hlast]
    rfl
  exact trimSpace_of_ends hstart ⟨hascii, hspace⟩ hend ⟨hascii', hspace'⟩

theorem isCredentials_of_parse (h : parseBearerHeader values = .ok token) :
    IsCredentials values token := by
  match values with
  | [] => cases h
  | _ :: _ :: _ => cases h
  | [raw] =>
    simp only [parseBearerHeader, bind_ok, failIf_ok] at h
    obtain ⟨_, -, _, -, _, -, h⟩ := h
    cases hindex : indexByte raw 32 with
    | none =>
      rw [hindex] at h
      cases h
    | some separator =>
      simp only [hindex, bind_ok, failIf_ok, Bool.not_eq_false'] at h
      obtain ⟨_, -, _, hscheme, _, -, _, hlen, _, hvalid, htoken⟩ := h
      cases htoken
      obtain ⟨hlt, hbyte, -⟩ := List.findIdx?_eq_some_iff_getElem.mp hindex
      refine ⟨raw.take separator, ?_, equalFold_bearer.mp hscheme,
        validBearerToken_iff.mp hvalid, ?_⟩
      · have hspace : raw[separator] = 32 := beq_iff_eq.mp hbyte
        rw [← hspace, List.getElem_cons_drop, List.take_append_drop]
      · simpa using hlen

theorem parse_of_isCredentials (h : IsCredentials values token) :
    parseBearerHeader values = .ok token := by
  obtain ⟨scheme, rfl, hscheme, htoken, hlen⟩ := h
  obtain ⟨hsix, hbytes⟩ := scheme_bytes hscheme
  have hindex : indexByte (scheme ++ 32 :: token) 32 = some scheme.length :=
    indexByte_append (fun hb => (hbytes 32 hb).2.1 rfl) token
  have hne : scheme ≠ [] := fun hnil => by
    rw [hnil] at hsix
    cases hsix
  have htrim := trimSpace_credentials hbytes htoken.bytes hne htoken.ne_nil
  have hframing : (scheme ++ 32 :: token).any (fun c => c == 9 || c == 13 || c == 10) = false := by
    have hplain : ∀ c : UInt8, isSpace c.toNat = false → (c == 9 || c == 13 || c == 10) = false :=
      forall_byte (by decide +kernel)
    rw [List.any_eq_false]
    intro c hc
    rcases List.mem_append.mp hc with hc | hc
    · exact Bool.eq_false_iff.mp (hplain c (hbytes c hc).2.2)
    · rcases List.mem_cons.mp hc with rfl | hc
      · decide
      · exact Bool.eq_false_iff.mp (hplain c (htoken.bytes c hc).2.2)
  have hdrop : (scheme ++ 32 :: token).drop (scheme.length + 1) = token := by simp
  have hsingle : indexByte token 32 = none :=
    List.findIdx?_eq_none_iff.mpr fun b hb => beq_eq_false_iff_ne.mpr (htoken.bytes b hb).2.1
  have hlong : ¬maxBearerTokenBytes + (str "Bearer ").length < (scheme ++ 32 :: token).length := by
    have hseven : (str "Bearer ").length = 7 := by decide
    rw [hseven, List.length_append, List.length_cons]
    omega
  simp only [parseBearerHeader, bind_ok, failIf_ok, hindex, hdrop, List.take_left]
  refine ⟨(), decide_eq_false hlong, (),
    by simp, (), ?_, (), ?_, (), ?_, (), ?_, (), ?_, (), ?_, rfl⟩
  · rw [htrim, bne_self_eq_false, Bool.false_or, hframing]
  · simp [hne, hsingle, htoken.ne_nil]
  · rw [equalFold_bearer.mpr hscheme]
    rfl
  · simp [htoken.ne_nil]
  · exact decide_eq_false (not_lt.mpr hlen)
  · rw [validBearerToken_iff.mpr htoken]
    rfl

def Invalidates (result : Except AuthError α) : Prop :=
  ∀ err, result = .error err → err.isInvalidCredentials = true

theorem invalidates_failIf (h : err.isInvalidCredentials = true) :
    Invalidates (failIf fails err) := by
  intro err' herr
  cases fails <;> simp [failIf] at herr
  exact herr ▸ h

theorem Invalidates.bind {first : Except AuthError α} {rest : α → Except AuthError β}
    (h : Invalidates first)
    (h' : ∀ value, Invalidates (rest value)) : Invalidates (first >>= rest) := by
  intro err herr
  rcases bind_error.mp herr with hfirst | ⟨value, -, hrest⟩
  · exact h err hfirst
  · exact h' value err hrest

theorem invalidates_parse (values : List GoString) : Invalidates (parseBearerHeader values) := by
  match values with
  | [] => rintro err ⟨⟩; rfl
  | _ :: _ :: _ => rintro err ⟨⟩; rfl
  | [raw] =>
    refine (invalidates_failIf rfl).bind fun _ => (invalidates_failIf rfl).bind fun _ =>
      (invalidates_failIf rfl).bind fun _ => ?_
    split
    · rintro err ⟨⟩; rfl
    · refine (invalidates_failIf rfl).bind fun _ => (invalidates_failIf rfl).bind fun _ =>
        (invalidates_failIf rfl).bind fun _ => (invalidates_failIf rfl).bind fun _ =>
        (invalidates_failIf rfl).bind fun _ => ?_
      rintro err ⟨⟩

theorem parse_perm (h : values'.Perm values) :
    parseBearerHeader values' = parseBearerHeader values := by
  have hlen := h.length_eq
  match values, values' with
  | [], [] => rfl
  | [raw], [raw'] => rw [List.singleton_perm_singleton.mp h]
  | _ :: _ :: _, _ :: _ :: _ => rfl
  | [], _ :: _ => cases hlen
  | _ :: _, [] => cases hlen
  | [_], _ :: _ :: _ => simp at hlen
  | _ :: _ :: _, [_] => simp at hlen

theorem parseBearerHeader_ok : parseBearerHeader values = .ok token ↔ IsCredentials values token :=
  ⟨isCredentials_of_parse, parse_of_isCredentials⟩

/-- The values of all header keys that equal `Authorization` up to case. -/
def Request.authorization (request : Request) : List GoString :=
  (request.header.filter fun e => decide (toLower e.1 = "authorization")).flatMap Prod.snd

theorem parseBearerToken_eq (request : Request) :
    parseBearerToken (some request) = parseBearerHeader request.authorization := by
  have hkey : ∀ e : GoString × List GoString,
      equalFold e.1 "Authorization" = decide (toLower e.1 = "authorization") := by
    intro e
    rw [Bool.eq_iff_iff, decide_eq_true_eq]
    exact equalFold_authorization
  simp only [parseBearerToken, hkey]
  rfl

/-- The parser accepts exactly its grammar, and a request's credentials do not
depend on the order of its header map. -/
theorem bearer_grammar :
    (∀ values token, parseBearerHeader values = .ok token ↔ IsCredentials values token) ∧
    (∀ values, (¬∃ token, IsCredentials values token) →
      ∃ err, parseBearerHeader values = .error err ∧ err.isInvalidCredentials = true) ∧
    ∀ request : Request, parseBearerToken (some request) = parseBearerHeader request.authorization ∧
      ∀ header, header.Perm request.header →
        parseBearerToken (some { request with header }) = parseBearerToken (some request) := by
  refine ⟨fun values token => parseBearerHeader_ok, fun values hnone => ?_, fun request => ⟨?_, ?_⟩⟩
  · cases hparse : parseBearerHeader values with
    | ok token => exact absurd ⟨token, parseBearerHeader_ok.mp hparse⟩ hnone
    | error err => exact ⟨err, rfl, invalidates_parse values err hparse⟩
  · exact parseBearerToken_eq request
  · intro header hperm
    rw [parseBearerToken_eq, parseBearerToken_eq]
    exact parse_perm ((hperm.filter _).flatMap_right _)

/-- A scheme in mixed case with a padded token; and padding inside one. -/
theorem bearer_grammar_samples :
    parseBearerHeader ["bEARER a~Z0=="] = .ok "a~Z0==" ∧
    ∃ err, parseBearerHeader ["Bearer a=b"] = .error err ∧ err.isInvalidCredentials = true := by
  obtain ⟨haccepts, hrejects, -⟩ := bearer_grammar
  refine ⟨(haccepts _ _).mpr ⟨"bEARER",
    by decide, by decide, ⟨"a~Z0", 2, by decide, by decide, ?_⟩, by decide⟩, hrejects _ ?_⟩
  · exact fun c hc => List.contains_iff_mem.mp (List.all_eq_true.mp (by decide) c hc)
  · rintro ⟨token, h⟩
    have hrejected : parseBearerHeader ["Bearer a=b"] = .error .invalidCredentials := by
      decide +kernel
    rw [← haccepts, hrejected] at h
    cases h

end GoClean.Auth

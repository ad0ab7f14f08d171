import GoClean.Go.Net

/-!
# Printed addresses are read back

`SplitHostPort` undoes `JoinHostPort`, and `ParseIP` undoes `IP.String`, so
that two addresses with one text are one address. A text with a zone is read
as no address, wherever it is cut.
-/

namespace GoClean.Go

-- ---------------------------------------------------------------------------
-- Hosts and ports
-- ---------------------------------------------------------------------------

theorem lastIndexByte_append {rest : GoString} (s : GoString) (h : b ∉ rest) :
    lastIndexByte (s ++ b :: rest) b = some s.length := by
  have hreverse : (s ++ b :: rest).reverse = rest.reverse ++ b :: s.reverse := by simp
  rw [lastIndexByte, hreverse, indexByte_append (fun hb => h (List.mem_reverse.mp hb)),
    Option.map_some]
  simp only [List.length_append, List.length_cons, List.length_reverse, Option.some.injEq]
  omega

def splitsHostPort (b : UInt8) : Bool := b == 58 || b == 91 || b == 93

theorem splitHostPort_joinHostPort (hhost : 91 ∉ host ∧ 93 ∉ host)
    (hport : ∀ b ∈ port, splitsHostPort b = false) :
    splitHostPort (joinHostPort host port) = some (host, port) := by
  have hnot : ∀ b, splitsHostPort b = true → b ∉ port := fun b hb hmem => by
    simp [hport b hmem] at hb
  have hcolon := hnot 58 rfl
  have hopen := hnot 91 rfl
  have hclose := hnot 93 rfl
  unfold joinHostPort
  split
  · -- the brackets are the first and the last byte before the colon
    have hlast := lastIndexByte_append (91 :: host ++ [93]) hcolon
    have hstop := indexByte_append (s := 91 :: host) (b := 93) (by simp [hhost.2]) (58 :: port)
    rw [show 91 :: host ++ 93 :: 58 :: port = (91 :: host ++ [93]) ++ 58 :: port by simp] at hstop ⊢
    rw [splitHostPort, hlast, Option.bind_eq_bind, Option.bind_some]
    dsimp only
    rw [if_pos (by simp), hstop, Option.bind_some, if_neg, Option.some.injEq, Prod.mk.injEq]
    · constructor
      · simp
      · simp [List.drop_append]
    · simp [List.drop_append, List.drop_of_length_le (Nat.le_succ host.length),
        hhost.1, hopen, hclose]
  · next hplain =>
    have hlast := lastIndexByte_append host hcolon
    have hhead : (host ++ 58 :: port).head? ≠ some 91 := by
      cases host with
      | nil => simp
      | cons b rest => simpa using fun heq : b = 91 => hhost.1 (heq ▸ List.mem_cons_self)
    rw [splitHostPort, hlast, Option.bind_eq_bind, Option.bind_some]
    dsimp only
    rw [if_neg hhead, if_neg]
    · simp
    · have hplain : 58 ∉ host := by simpa using hplain
      simp [hplain, hhost.1, hhost.2, hopen, hclose]

/-- Where a text is split, the host has every byte before the last colon but
the brackets. -/
theorem mem_host_of_splitHostPort (hport : 58 ∉ port)
    (h : splitHostPort (s ++ 58 :: port) = some (host, rest))
    (hb : b ∈ s) (hopen : b ≠ 91) (hclose : b ≠ 93) : b ∈ host := by
  rw [splitHostPort, lastIndexByte_append s hport, Option.bind_eq_bind, Option.bind_some] at h
  dsimp only at h
  split at h
  · next hhead =>
    rw [Option.bind_eq_some_iff] at h
    obtain ⟨stop, hstop, h⟩ := h
    split at h
    · cases h
    · next hchecks =>
      simp only [not_or, ne_eq, not_not] at hchecks
      obtain ⟨hend, -, -⟩ := hchecks
      cases h
      obtain ⟨c, s, rfl⟩ := List.exists_cons_of_ne_nil (List.ne_nil_of_mem hb)
      obtain rfl : c = 91 := by simpa using hhead
      have hb : b ∈ s := (List.mem_cons.mp hb).resolve_left hopen
      obtain ⟨inner, last, rfl⟩ := (List.eq_nil_or_concat s).resolve_left (List.ne_nil_of_mem hb)
      obtain rfl : stop = inner.length + 1 := by simpa using hend
      obtain ⟨_, hlast, -⟩ := List.findIdx?_eq_some_iff_getElem.mp hstop
      obtain rfl : last = 93 := by simpa using hlast
      have hb : b ∈ inner := by simpa [hclose] using hb
      simpa using hb
  · split at h
    · cases h
    · cases h
      simpa using hb

-- ---------------------------------------------------------------------------
-- IPv4
-- ---------------------------------------------------------------------------

namespace IP

theorem decimal_digit (h : n < 10) :
    isDigit (Hex.digit n) = true ∧ (Hex.digit n).toNat - 48 = n := by
  have hall : ∀ i : Fin 10, isDigit (Hex.digit i) = true ∧ (Hex.digit i).toNat - 48 = i.val := by
    decide
  exact hall ⟨n, h⟩

theorem parseIPv4Fields_digit (h : n < 10) (hlead : ¬(digLen = 1 ∧ val = 0))
    (hval : val * 10 + n ≤ 255) :
    parseIPv4Fields fields val digLen (Hex.digit n :: rest) =
      parseIPv4Fields fields (val * 10 + n) (digLen + 1) rest := by
  obtain ⟨hdigit, hvalue⟩ := decimal_digit h
  rw [parseIPv4Fields, if_pos hdigit, if_neg hlead, hvalue, if_neg (not_lt.mpr hval)]

theorem parseIPv4Fields_dot (hdigits : digLen ≠ 0) (hrest : rest ≠ []) (hroom : fields.length ≠ 3) :
    parseIPv4Fields fields val digLen (46 :: rest) =
      parseIPv4Fields (fields ++ [UInt8.ofNat val]) 0 0 rest := by
  rw [parseIPv4Fields, if_neg (by decide), if_pos rfl, if_neg (not_or.mpr ⟨hdigits, hrest⟩),
    if_neg hroom]

theorem appendDecimal_ne_nil (x : UInt8) : appendDecimal x ≠ [] := by
  simp [appendDecimal]

theorem parseIPv4Fields_octet (fields : List UInt8) (x : UInt8) (rest : GoString) :
    ∃ digLen, digLen ≠ 0 ∧
    parseIPv4Fields fields 0 0 (appendDecimal x ++ rest) =
      parseIPv4Fields fields x.toNat digLen rest := by
  have hx := x.toNat_lt
  unfold appendDecimal
  by_cases hundred : 100 ≤ x.toNat
  · refine ⟨3, by decide, ?_⟩
    rw [if_pos hundred, if_pos (by omega)]
    simp only [List.cons_append, List.nil_append]
    rw [parseIPv4Fields_digit (by omega) (by omega) (by omega),
      parseIPv4Fields_digit (by omega) (by omega) (by omega),
      parseIPv4Fields_digit (by omega) (by omega) (by omega)]
    congr 1
    omega
  · by_cases hten : 10 ≤ x.toNat
    · refine ⟨2, by decide, ?_⟩
      rw [if_neg hundred, if_pos hten]
      simp only [List.cons_append, List.nil_append]
      rw [parseIPv4Fields_digit (by omega) (by omega) (by omega),
        parseIPv4Fields_digit (by omega) (by omega) (by omega)]
      congr 1
      omega
    · refine ⟨1, by decide, ?_⟩
      rw [if_neg hundred, if_neg hten]
      simp only [List.cons_append, List.nil_append]
      rw [parseIPv4Fields_digit (by omega) (by omega) (by omega)]
      congr 1
      omega

theorem parseIPv4Fields_join : ∀ {octets fields}, octets ≠ [] → fields.length + octets.length = 4 →
    parseIPv4Fields fields 0 0 (join 46 (octets.map appendDecimal)) = some (fields ++ octets)
  | [], _, h, _ => absurd rfl h
  | [x], fields, _, hlen => by
    obtain ⟨digLen, -, hoctet⟩ := parseIPv4Fields_octet fields x []
    rw [List.append_nil] at hoctet
    rw [List.map_singleton, join, hoctet, parseIPv4Fields, if_neg, UInt8.ofNat_toNat]
    simp only [List.length_singleton] at hlen
    omega
  | x :: y :: octets, fields, _, hlen => by
    simp only [List.length_cons] at hlen
    obtain ⟨digLen, hdigits, hoctet⟩ :=
      parseIPv4Fields_octet fields x (46 :: join 46 ((y :: octets).map appendDecimal))
    have hrest : join 46 ((y :: octets).map appendDecimal) ≠ [] :=
      join_ne_nil (appendDecimal_ne_nil y)
    have hjoin : join 46 ((x :: y :: octets).map appendDecimal) =
      appendDecimal x ++ 46 :: join 46 ((y :: octets).map appendDecimal) := rfl
    rw [hjoin, hoctet, parseIPv4Fields_dot hdigits hrest (by omega), UInt8.ofNat_toNat,
      parseIPv4Fields_join (List.cons_ne_nil _ _) (by simp; omega), List.append_assoc]
    rfl

theorem bytes_of_parseIPv4Fields {s : GoString}
    (h : parseIPv4Fields fields val digLen s = some octets) :
    ∀ b ∈ s, isDigit b = true ∨ b = 46 := by
  induction s generalizing fields val digLen with
  | nil => exact fun b hb => nomatch hb
  | cons c rest ih =>
    rw [List.forall_mem_cons]
    rw [parseIPv4Fields] at h
    split_ifs at h with hdigit _ _ hdot
    · exact ⟨.inl hdigit, ih h⟩
    · exact ⟨.inr hdot, ih h⟩

-- ---------------------------------------------------------------------------
-- Groups
-- ---------------------------------------------------------------------------

theorem hex_digit (n : Nat) : isHexDigit (Hex.digit (n % 16)) = true ∧
    Hex.fromHexChar (Hex.digit (n % 16)) = some (n % 16) := by
  have hdigit := Hex.fromHexChar_digit (Nat.mod_lt n (by decide : 0 < 16))
  exact ⟨by rw [isHexDigit, hdigit, Option.isSome_some], hdigit⟩

theorem appendHex_spec (x : UInt16) : (∀ c ∈ appendHex x, isHexDigit c = true) ∧ appendHex x ≠ [] ∧
    (appendHex x).length ≤ 4 ∧ hexValue (appendHex x) = x.toNat := by
  have hx := x.toNat_lt
  have htop : x.toNat / 4096 = x.toNat / 4096 % 16 := by omega
  unfold appendHex
  rw [htop]
  refine ⟨?_, by simp, by split_ifs <;> simp, ?_⟩
  · split_ifs <;> simp [hex_digit]
  · split_ifs <;> simp [hexValue, hex_digit] <;> omega

variable {groups : List UInt16}

theorem takeWhile_appendHex (x : UInt16) (h : ∀ c ∈ rest.head?, isHexDigit c = false) :
    (appendHex x ++ rest).takeWhile isHexDigit = appendHex x ∧
    (appendHex x ++ rest).dropWhile isHexDigit = rest := by
  have hdigits := (appendHex_spec x).1
  rw [List.takeWhile_append_of_pos hdigits, List.dropWhile_append_of_pos hdigits]
  cases rest with
  | nil => simp
  | cons c rest => simp [h c rfl]

theorem parseGroups_group (groups : List UInt16) (ellipsis : Option Nat) (room : Nat) (x : UInt16)
    (rest : GoString) :
    (∀ c ∈ rest.head?, isHexDigit c = false) → rest.head? ≠ some 46 → parseGroups groups ellipsis
    (room + 1) (appendHex x ++ rest) =
      match rest with
      | [] => some (groups ++ [x], ellipsis, [])
      | colon :: more =>
        if colon ≠ 58 ∨ more = [] then none
        else if more.head? = some 58 then
          if ellipsis.isSome then none
          else if more.tail = [] then some (groups ++ [x], some (groups ++ [x]).length, [])
          else parseGroups (groups ++ [x]) (some (groups ++ [x]).length) room more.tail
        else parseGroups (groups ++ [x]) ellipsis room more := by
  intro hdigit hdot
  obtain ⟨htake, hdrop⟩ := takeWhile_appendHex x hdigit
  obtain ⟨-, hne, hlen, hvalue⟩ := appendHex_spec x
  rw [parseGroups]
  dsimp only
  rw [htake, hdrop, if_neg (not_or.mpr ⟨hne, not_lt.mpr hlen⟩), if_neg hdot,
    hvalue, UInt16.ofNat_toNat]
  cases rest <;> rfl

theorem colons_cons_cons (x y : UInt16) (l : List UInt16) :
    colons (x :: y :: l) = appendHex x ++ 58 :: colons (y :: l) :=
  rfl

theorem head_appendHex (x : UInt16) (rest : GoString) :
    ∃ c, (appendHex x ++ rest).head? = some c ∧ isHexDigit c = true := by
  obtain ⟨hdigits, hne, -⟩ := appendHex_spec x
  obtain ⟨c, digits, heq⟩ := List.exists_cons_of_ne_nil hne
  exact ⟨c, by rw [heq]; rfl, hdigits c (heq ▸ List.mem_cons_self)⟩

theorem head_colons (x : UInt16) (l : List UInt16) (rest : GoString) :
    ∃ c, (colons (x :: l) ++ rest).head? = some c ∧ isHexDigit c = true := by
  cases l with
  | nil => exact head_appendHex x rest
  | cons y l =>
    rw [colons_cons_cons, List.append_assoc]
    exact head_appendHex x _

theorem head_colons_alone (x : UInt16) (l : List UInt16) :
    ∃ c, (colons (x :: l)).head? = some c ∧ isHexDigit c = true := by
  have h := head_colons x l []
  rwa [List.append_nil] at h

theorem colons_ne_nil (x : UInt16) (l : List UInt16) : colons (x :: l) ≠ [] := by
  intro h
  obtain ⟨c, hhead, -⟩ := head_colons_alone x l
  simp [h] at hhead

theorem parseGroups_next (x : UInt16) (hmore : more.head? = some c) (hc : isHexDigit c = true) :
    parseGroups groups ellipsis (room + 1) (appendHex x ++ 58 :: more) =
      parseGroups (groups ++ [x]) ellipsis room more := by
  have hcolon : more.head? ≠ some 58 := fun h => by
    rw [hmore, Option.some.injEq] at h
    rw [h] at hc
    exact absurd hc (by decide)
  rw [parseGroups_group _ _ _ _ _ (by simp; decide) (by simp)]
  dsimp only
  rw [if_neg, if_neg hcolon]
  rintro (h | h)
  · exact h rfl
  · simp [h] at hmore

theorem parseGroups_colons : ∀ {l groups room}, l ≠ [] → l.length ≤ room →
    parseGroups groups ellipsis room (colons l) = some (groups ++ l, ellipsis, [])
  | [], _, _, h, _ => absurd rfl h
  | _ :: _, _, 0, _, hroom => absurd hroom (by simp)
  | [x], groups, room + 1, _, _ => by
    have h := parseGroups_group groups ellipsis room x [] (by simp) (by simp)
    rwa [List.append_nil] at h
  | x :: y :: l, groups, room + 1, _, hroom => by
    obtain ⟨c, hhead, hc⟩ := head_colons_alone y l
    rw [colons_cons_cons, parseGroups_next x hhead hc,
      parseGroups_colons (List.cons_ne_nil _ _) (Nat.le_of_succ_le_succ hroom), List.append_assoc]
    rfl

theorem parseGroups_ellipsis : ∀ {l groups room}, l ≠ [] → l.length + after.length ≤ room →
    parseGroups groups none room (colons l ++ 58 :: 58 :: colons after) =
      some (groups ++ l ++ after, some (groups ++ l).length, [])
  | [], _, _, h, _ => absurd rfl h
  | _ :: _, _, 0, _, hroom => absurd hroom (by simp)
  | [x], groups, room + 1, _, hroom => by
    have hone : colons [x] = appendHex x := rfl
    rw [hone, parseGroups_group _ _ _ _ _ (by simp; decide) (by simp)]
    dsimp only
    rw [if_neg (by simp), if_pos List.head?_cons, if_neg (by simp), List.tail_cons]
    cases after with
    | nil => simp [colons, join]
    | cons y after =>
      rw [if_neg (colons_ne_nil y after), parseGroups_colons (List.cons_ne_nil _ _)]
      simp only [List.length_cons, List.length_nil] at hroom ⊢
      omega
  | x :: y :: l, groups, room + 1, _, hroom => by
    obtain ⟨c, hhead, hc⟩ := head_colons y l (58 :: 58 :: colons after)
    simp only [List.length_cons] at hroom
    rw [colons_cons_cons, List.append_assoc, List.cons_append, parseGroups_next x hhead hc,
      parseGroups_ellipsis (List.cons_ne_nil _ _) (by simp only [List.length_cons]; omega),
      List.append_assoc groups]
    rfl

-- ---------------------------------------------------------------------------
-- IPv6
-- ---------------------------------------------------------------------------

def ZeroRun (groups : List UInt16) (start stop : Nat) : Prop :=
  start + 2 ≤ stop ∧ stop ≤ groups.length ∧
    groups = groups.take start ++ (List.replicate (stop - start) 0 ++ groups.drop stop)

theorem zeroRun_isRun (h : 2 ≤ zeroRun groups start) :
    ZeroRun groups start (start + zeroRun groups start) := by
  have hsplit : groups.drop start = (groups.drop start).takeWhile (· == 0) ++
      (groups.drop start).dropWhile (· == 0) :=
    List.takeWhile_append_dropWhile.symm
  have hzeros : (groups.drop start).takeWhile (· == 0) = List.replicate (zeroRun groups start) 0 :=
    List.eq_replicate_iff.mpr ⟨rfl, fun g hg => by simpa using List.mem_takeWhile_imp hg⟩
  have hdrop : groups.drop (start + zeroRun groups start) =
      (groups.drop start).dropWhile (· == 0) := by
    rw [← List.drop_drop]
    conv_lhs => rw [hsplit]
    exact List.drop_left
  have hle : zeroRun groups start ≤ (groups.drop start).length :=
    (List.takeWhile_sublist _).length_le
  rw [List.length_drop] at hle
  refine ⟨by omega, by omega, ?_⟩
  rw [Nat.add_sub_cancel_left, hdrop, ← hzeros, ← hsplit, List.take_append_drop]

theorem longestZeros_isRun (h : longestZeros groups = some (start, stop)) :
    ZeroRun groups start stop := by
  -- every run the fold keeps is one
  have hfold : ∀ (starts : List Nat) best, (∀ run ∈ best, ZeroRun groups run.1 run.2) →
      ∀ run ∈ starts.foldl (fun best start =>
        let length := zeroRun groups start
        if 2 ≤ length ∧ best.all (fun run => decide (run.2 - run.1 < length)) then
          some (start, start + length)
        else best) best, ZeroRun groups run.1 run.2 := by
    intro starts
    induction starts with
    | nil => exact fun best hbest => hbest
    | cons start starts ih =>
      intro best hbest
      refine ih _ ?_
      dsimp only
      split
      · next hlong =>
        rintro run ⟨⟩
        exact zeroRun_isRun hlong.1
      · exact hbest
  exact hfold _ none (by simp) (start, stop) h

theorem expandEllipsis_run (hlen : groups.length = 8) (h : ZeroRun groups start stop) :
    expandEllipsis (groups.take start ++ groups.drop stop) (some start) [] = some groups := by
  obtain ⟨htwo, hstop, hgroups⟩ := h
  have hstart : (groups.take start).length = start := by simp; omega
  have hshort : (groups.take start ++ groups.drop stop).length = start + (8 - stop) := by
    rw [List.length_append, hstart, List.length_drop, hlen]
  have hfill : 8 - (start + (8 - stop)) = stop - start := by omega
  rw [expandEllipsis, if_neg (by simp), if_pos (by omega), Option.map_some, hshort, hfill,
    Option.some.injEq, List.take_left' hstart, List.drop_left' hstart, List.append_assoc]
  exact hgroups.symm

theorem take_ne_ellipsis {s : GoString} (h : s.head? = some c) (hc : isHexDigit c = true) :
    s.take 2 ≠ [58, 58] := by
  intro htake
  obtain ⟨rest, rfl⟩ := List.head?_eq_some_iff.mp h
  rw [List.take_succ_cons] at htake
  rw [(List.cons.inj htake).1] at hc
  exact absurd hc (by decide)

theorem parseGroupText_leading (hlen : groups.length = 8) (hrun : ZeroRun groups 0 stop) :
    parseGroupText (58 :: 58 :: colons (groups.drop stop)) = some groups := by
  have hexpand := expandEllipsis_run hlen hrun
  obtain ⟨-, hstop, hgroups⟩ := hrun
  rw [parseGroupText, if_pos (by simp), List.drop_succ_cons, List.drop_succ_cons, List.drop_zero]
  cases hafter : groups.drop stop with
  | nil =>
    have hall : stop = 8 := by
      have := List.drop_eq_nil_iff.mp hafter
      omega
    rw [if_pos (show colons [] = [] from rfl), hgroups, hafter, hall]
    rfl
  | cons y after =>
    rw [hafter] at hexpand
    have hroom : (y :: after).length ≤ 8 := by
      rw [← hafter, List.length_drop]
      omega
    rw [if_neg (colons_ne_nil y after), parseGroups_colons (List.cons_ne_nil _ _) hroom]
    exact hexpand

theorem parseGroupText_string6 (hlen : groups.length = 8) :
    parseGroupText (string6 groups) = some groups := by
  unfold string6
  split
  · next hnone =>
    obtain ⟨x, l, rfl⟩ :=
      List.exists_cons_of_ne_nil (List.ne_nil_of_length_pos (hlen ▸ by decide : 0 < groups.length))
    obtain ⟨c, hhead, hc⟩ := head_colons_alone x l
    rw [parseGroupText, if_neg (take_ne_ellipsis hhead hc),
      parseGroups_colons (List.cons_ne_nil _ _) hlen.le]
    simp [expandEllipsis, hlen]
  · next start stop hlongest =>
    have hrun := longestZeros_isRun hlongest
    cases start with
    | zero => exact parseGroupText_leading hlen hrun
    | succ start =>
      have hexpand := expandEllipsis_run hlen hrun
      obtain ⟨htwo, hstop, -⟩ := hrun
      have hstart : (groups.take (start + 1)).length = start + 1 := by simp; omega
      have hroom : (groups.take (start + 1)).length + (groups.drop stop).length ≤ 8 := by
        rw [hstart, List.length_drop]
        omega
      have hne : groups.take (start + 1) ≠ [] := fun h => by simp [h] at hstart
      obtain ⟨x, l, hbefore⟩ := List.exists_cons_of_ne_nil hne
      obtain ⟨c, hhead, hc⟩ := head_colons x l (58 :: 58 :: colons (groups.drop stop))
      rw [← hbefore] at hhead
      rw [parseGroupText, if_neg (take_ne_ellipsis hhead hc), parseGroups_ellipsis hne hroom,
        List.nil_append, hstart]
      exact hexpand

-- ---------------------------------------------------------------------------
-- The bytes of an address
-- ---------------------------------------------------------------------------

def addressByte (b : UInt8) : Bool := isHexDigit b || b == 58 || b == 46

theorem colons_bytes (h : b ∈ colons groups) : isHexDigit b = true ∨ b = 58 := by
  rcases mem_join h with rfl | ⟨part, hpart, hb⟩
  · exact .inr rfl
  · obtain ⟨x, -, rfl⟩ := List.mem_map.mp hpart
    exact .inl ((appendHex_spec x).1 b hb)

theorem string6_bytes (h : b ∈ string6 groups) : isHexDigit b = true ∨ b = 58 := by
  unfold string6 at h
  split at h
  · exact colons_bytes h
  · simp only [List.mem_append, List.mem_cons] at h
    rcases h with h | rfl | rfl | h
    · exact colons_bytes h
    · exact .inr rfl
    · exact .inr rfl
    · exact colons_bytes h

theorem appendDecimal_bytes (h : b ∈ appendDecimal x) : isDigit b = true := by
  have hx := x.toNat_lt
  simp only [appendDecimal, List.mem_append, List.mem_ite_nil_right, List.mem_singleton] at h
  rcases h with (⟨-, rfl⟩ | ⟨-, rfl⟩) | rfl
  · exact (decimal_digit (by omega)).1
  · exact (decimal_digit (by omega)).1
  · exact (decimal_digit (by omega)).1

theorem dotted_bytes {octets : List UInt8} (h : b ∈ join 46 (octets.map appendDecimal)) :
    isDigit b = true ∨ b = 46 := by
  rcases mem_join h with rfl | ⟨part, hpart, hb⟩
  · exact .inr rfl
  · obtain ⟨x, -, rfl⟩ := List.mem_map.mp hpart
    exact .inl (appendDecimal_bytes hb)

theorem isHexDigit_of_isDigit (b : UInt8) : isDigit b = true → isHexDigit b = true := by
  revert b
  exact forall_byte (by decide +kernel)

theorem string_bytes {ip : IP} (h : b ∈ ip.string) : addressByte b = true := by
  unfold string at h
  split at h
  · rcases dotted_bytes h with hb | rfl
    · rw [addressByte, isHexDigit_of_isDigit b hb]
      rfl
    · decide
  · rcases string6_bytes h with hb | rfl
    · rw [addressByte, hb]
      rfl
    · decide

theorem to4_some {ip : IP} (h : ip.to4 = some octets) :
    octets.length = 4 ∧ mappedGroups ++ octetGroups octets = ip.groups := by
  unfold to4 at h
  split at h
  · next hmapped =>
    cases h
    have hlen : (ip.groups.drop 6).length = 2 := by rw [List.length_drop, ip.length_groups]
    obtain ⟨x, y, hlast⟩ := List.length_eq_two.mp hlen
    have hgroup : ∀ g : UInt16, bytesGroup (UInt8.ofNat (g.toNat / 256))
        (UInt8.ofNat (g.toNat % 256)) = g := by
      intro g
      have hg := g.toNat_lt
      have hvalue : (UInt8.ofNat (g.toNat / 256)).toNat * 256 +
          (UInt8.ofNat (g.toNat % 256)).toNat = g.toNat := by
        rw [UInt8.toNat_ofNat', UInt8.toNat_ofNat']
        omega
      rw [bytesGroup, hvalue, UInt16.ofNat_toNat]
    rw [hlast]
    refine ⟨rfl, ?_⟩
    have hoctets : octetGroups ([x, y].flatMap groupBytes) = [x, y] := by
      simp only [List.flatMap_cons, List.flatMap_nil, groupBytes, List.cons_append, List.nil_append,
        octetGroups, hgroup]
    rw [hoctets, ← hmapped, ← hlast, List.take_append_drop]
  · cases h

theorem length_join_le_five_mul {parts : List GoString} (h : ∀ part ∈ parts, part.length ≤ 4) :
    (join sep parts).length ≤ 5 * parts.length := by
  induction parts with
  | nil => exact Nat.zero_le _
  | cons part rest ih =>
    rw [List.forall_mem_cons] at h
    have ih := ih h.2
    cases rest with
    | nil => exact le_trans h.1 (by simp)
    | cons next rest =>
      rw [join_cons_cons, List.length_append, List.length_cons]
      simp only [List.length_cons] at ih ⊢
      omega

theorem length_colons_le (groups : List UInt16) : (colons groups).length ≤ 5 * groups.length := by
  have h : (colons groups).length ≤ 5 * (groups.map appendHex).length :=
    length_join_le_five_mul fun part hpart => by
    obtain ⟨x, -, rfl⟩ := List.mem_map.mp hpart
    exact (appendHex_spec x).2.2.1
  rwa [List.length_map] at h

theorem length_string_le (ip : IP) : ip.string.length ≤ 100 := by
  have hlen := ip.length_groups
  unfold string
  split
  · next octets hoctets =>
    have hjoin : (join 46 (octets.map appendDecimal)).length ≤
        5 * (octets.map appendDecimal).length :=
      length_join_le_five_mul fun part hpart => by
        obtain ⟨x, -, rfl⟩ := List.mem_map.mp hpart
        unfold appendDecimal
        split_ifs <;> simp
    rw [List.length_map, (to4_some hoctets).1] at hjoin
    omega
  · unfold string6
    split
    · exact le_trans (length_colons_le _) (by omega)
    · next start stop _ =>
      have hbefore := length_colons_le (ip.groups.take start)
      have hafter := length_colons_le (ip.groups.drop stop)
      rw [List.length_take] at hbefore
      rw [List.length_drop] at hafter
      simp only [List.length_append, List.length_cons]
      omega

-- ---------------------------------------------------------------------------
-- Addresses
-- ---------------------------------------------------------------------------

theorem find_separator {s : GoString} (hbytes : ∀ b ∈ s, isSeparator b = true → b = sep)
    (hmem : sep ∈ s) (hsep : isSeparator sep = true) : s.find? isSeparator = some sep := by
  cases hfind : s.find? isSeparator with
  | none => exact absurd hsep (List.find?_eq_none.mp hfind sep hmem)
  | some c => rw [hbytes c (List.mem_of_find?_eq_some hfind) (List.find?_some hfind)]

theorem sep_mem_join {parts : List GoString} (h : 2 ≤ parts.length) : sep ∈ join sep parts := by
  match parts with
  | [] => cases h
  | [_] => exact absurd h (by simp)
  | part :: next :: rest => exact List.mem_append_right part List.mem_cons_self

theorem colon_mem_string6 (hlen : groups.length = 8) : 58 ∈ string6 groups := by
  unfold string6
  split
  · exact sep_mem_join (by rw [List.length_map, hlen]; decide)
  · exact List.mem_append_right _ List.mem_cons_self

theorem isSeparator_of_isHexDigit (b : UInt8) : isHexDigit b = true → isSeparator b = false := by
  revert b
  exact forall_byte (by decide +kernel)

theorem parseAddr_string (ip : IP) : parseAddr ip.string = some (ip.groups, []) := by
  unfold string
  split
  · next octets hoctets =>
    obtain ⟨hlen, hgroups⟩ := to4_some hoctets
    have hfind : (join 46 (octets.map appendDecimal)).find? isSeparator = some 46 := by
      refine find_separator (fun b hb hsep => ?_)
        (sep_mem_join (by rw [List.length_map, hlen]; decide)) (by decide)
      refine (dotted_bytes hb).resolve_left fun hdigit => ?_
      simp [isSeparator_of_isHexDigit b (isHexDigit_of_isDigit b hdigit)] at hsep
    have hne : octets ≠ [] := fun h => by simp [h] at hlen
    have hfields :=
      parseIPv4Fields_join hne (show List.length [] + octets.length = 4 by simp [hlen])
    rw [parseAddr, hfind, Option.bind_eq_bind, Option.bind_some, if_pos rfl, hfields,
      Option.bind_eq_bind, Option.bind_some, List.nil_append, hgroups]
  · have hfind : (string6 ip.groups).find? isSeparator = some 58 := by
      refine find_separator (fun b hb hsep => ?_) (colon_mem_string6 ip.length_groups) (by decide)
      refine (string6_bytes hb).resolve_left fun hdigit => ?_
      simp [isSeparator_of_isHexDigit b hdigit] at hsep
    have hzone : indexByte (string6 ip.groups) 37 = none := by
      rw [indexByte, List.findIdx?_eq_none_iff]
      intro b hb
      rcases string6_bytes hb with hdigit | rfl
      · have hsep := isSeparator_of_isHexDigit b hdigit
        simp only [isSeparator, Bool.or_eq_false_iff] at hsep
        exact hsep.2
      · decide
    rw [parseAddr, hfind, Option.bind_eq_bind, Option.bind_some, if_neg (by decide),
      if_pos rfl, parseIPv6, hzone]
    dsimp only
    rw [parseGroupText_string6 ip.length_groups, Option.map_some]

end IP

theorem parseIP_string (ip : IP) : parseIP ip.string = some ip := by
  rw [parseIP, IP.parseAddr_string]
  dsimp only
  rw [dif_pos ip.length_groups, if_pos rfl]

theorem IP.string_injective {ip ip' : IP} (h : ip.string = ip'.string) : ip = ip' := by
  have hparse := congrArg parseIP h
  rwa [parseIP_string, parseIP_string, Option.some.injEq] at hparse

theorem IP.zone_of_parseAddr {s : GoString} (h : 37 ∈ s)
    (haddr : parseAddr s = some (found, zone)) : zone ≠ [] := by
  simp only [parseAddr, Option.bind_eq_bind, Option.bind_eq_some_iff] at haddr
  obtain ⟨c, -, haddr⟩ := haddr
  split_ifs at haddr
  · obtain ⟨octets, hoctets, -⟩ := Option.bind_eq_some_iff.mp haddr
    exact absurd (bytes_of_parseIPv4Fields hoctets 37 h) (by decide)
  · rw [parseIPv6] at haddr
    split at haddr
    · next hnone =>
      rw [indexByte, List.findIdx?_eq_none_iff] at hnone
      exact absurd (hnone 37 h) (by decide)
    · dsimp only at haddr
      split at haddr
      · cases haddr
      · next hne =>
        obtain ⟨_, -, heq⟩ := Option.map_eq_some_iff.mp haddr
        cases heq
        exact hne

theorem parseIP_of_zone {s : GoString} (h : 37 ∈ s) : parseIP s = none := by
  unfold parseIP
  split
  · next groups zone haddr => simp [IP.zone_of_parseAddr h haddr]
  · rfl

end GoClean.Go

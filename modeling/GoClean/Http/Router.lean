import GoClean.Http.Security
import GoClean.HttpApi.Endpoints

/-!
# Routes

The routes `buildRouter` registers. How gin keeps them and finds one is not part
of the repository: `Gin` is what the router relies on, and `plainGin` tries one
route after the other.
-/

namespace GoClean.Http

open Go HttpApi

def livenessPath : GoString := "/api/health"
def readinessPath : GoString := "/api/healthz"
def metricsPath : GoString := "/metrics"
def itemsPath : GoString := "/api/v1/items"

-- ---------------------------------------------------------------------------
-- Registered routes
-- ---------------------------------------------------------------------------

inductive PathPart
  | text (s : GoString)
  | param
  deriving DecidableEq

inductive Endpoint
  | liveness
  | readiness
  | metrics
  | createItem
  | listItems
  | getItem
  deriving DecidableEq

structure Registered where
  method : GoString
  pattern : List PathPart
  endpoint : Endpoint
  deriving DecidableEq

/-- What `buildRouter` and `RegisterRoutes` register. -/
def routes (metricsEnabled : Bool) : List Registered :=
  [⟨str "GET", [.text livenessPath], .liveness⟩,
    ⟨str "GET", [.text readinessPath], .readiness⟩] ++
  (if metricsEnabled then [⟨str "GET", [.text metricsPath], .metrics⟩] else []) ++
  [⟨str "POST", [.text itemsPath], .createItem⟩,
    ⟨str "GET", [.text itemsPath], .listItems⟩,
    ⟨str "GET", [.text (itemsPath ++ str "/"), .param], .getItem⟩]

/-- A path that fits a pattern, with the values of the parameters. A parameter
reaches to the next slash. -/
inductive Matches : List PathPart → GoString → List GoString → Prop
  | nil : Matches [] [] []
  | text : Matches parts rest params → Matches (.text s :: parts) (s ++ rest) params
  | param : value ≠ [] → 47 ∉ value → (∀ b ∈ rest.head?, b = 47) → Matches parts rest params →
      Matches (.param :: parts) (value ++ rest) (value :: params)

theorem matches_text : Matches [.text s] path params ↔ path = s ∧ params = [] := by
  constructor
  · intro h
    cases h with
    | text h =>
      cases h
      exact ⟨List.append_nil _, rfl⟩
  · rintro ⟨rfl, rfl⟩
    simpa using Matches.text (s := path) .nil

theorem matches_param : Matches [.text s, .param] path params ↔
    ∃ value, path = s ++ value ∧ value ≠ [] ∧ 47 ∉ value ∧ params = [value] := by
  constructor
  · intro h
    cases h with
    | text h =>
      cases h with
      | param hne hslash _ h =>
        cases h
        exact ⟨_, by rw [List.append_nil], hne, hslash, rfl⟩
  · rintro ⟨value, rfl, hne, hslash, rfl⟩
    simpa using Matches.text (s := s) (.param hne hslash (by simp) .nil)

/-- `gin.Engine` without redirects: a request whose path fits a route of its
method is given such a route. -/
structure Gin where
  find : List Registered → GoString → GoString → Option (Registered × List GoString)
  sound : find (routes metricsEnabled) method path = some (route, params) →
    route ∈ routes metricsEnabled ∧ route.method = method ∧ Matches route.pattern path params
  complete : route ∈ routes metricsEnabled → route.method = method →
    Matches route.pattern path params → (find (routes metricsEnabled) method path).isSome = true

-- ---------------------------------------------------------------------------
-- The route of a request
-- ---------------------------------------------------------------------------

inductive Route
  | liveness
  | readiness
  | metrics
  | createItem
  | listItems
  /-- With the value of the parameter `id`. -/
  | getItem (param : GoString)
  deriving DecidableEq

def Route.isItem : Route → Bool
  | createItem => true
  | listItems => true
  | getItem _ => true
  | _ => false

/-- What `c.Param` then gives is part of the route. -/
def Endpoint.route (params : List GoString) : Endpoint → Route
  | liveness => .liveness
  | readiness => .readiness
  | metrics => .metrics
  | createItem => .createItem
  | listItems => .listItems
  | getItem => .getItem (params.headD [])

/-- The route of a request; `none` is answered with status 404. -/
def findRoute (gin : Gin) (metricsEnabled : Bool) (method path : GoString) : Option Route :=
  (gin.find (routes metricsEnabled) method path).map fun found => found.1.endpoint.route found.2

section
variable {gin : Gin} {metricsEnabled : Bool} {method path : GoString} {route : Route}

theorem findRoute_cases (h : findRoute gin metricsEnabled method path = some route) :
    method = str "GET" ∧ path = livenessPath ∧ route = .liveness ∨
    method = str "GET" ∧ path = readinessPath ∧ route = .readiness ∨
    method = str "GET" ∧ path = metricsPath ∧ route = .metrics ∨
    method = str "POST" ∧ path = itemsPath ∧ route = .createItem ∨
    method = str "GET" ∧ path = itemsPath ∧ route = .listItems ∨
    method = str "GET" ∧ ∃ param, path = itemsPath ++ str "/" ++ param ∧
    route = .getItem param := by
  obtain ⟨⟨found, params⟩, hfind, rfl⟩ := Option.map_eq_some_iff.mp h
  obtain ⟨hmem, rfl, hmatch⟩ := gin.sound hfind
  rcases List.mem_append.mp hmem with hmem | hmem
  · rcases List.mem_append.mp hmem with hmem | hmem
    · simp only [List.mem_cons, List.not_mem_nil, or_false] at hmem
      rcases hmem with rfl | rfl
      · exact .inl ⟨rfl, (matches_text.mp hmatch).1, rfl⟩
      · exact .inr (.inl ⟨rfl, (matches_text.mp hmatch).1, rfl⟩)
    · cases metricsEnabled with
      | false => exact absurd hmem List.not_mem_nil
      | true =>
        cases List.mem_singleton.mp hmem
        exact .inr (.inr (.inl ⟨rfl, (matches_text.mp hmatch).1, rfl⟩))
  · simp only [List.mem_cons, List.not_mem_nil, or_false] at hmem
    rcases hmem with rfl | rfl | rfl
    · exact .inr (.inr (.inr (.inl ⟨rfl, (matches_text.mp hmatch).1, rfl⟩)))
    · exact .inr (.inr (.inr (.inr (.inl ⟨rfl, (matches_text.mp hmatch).1, rfl⟩))))
    · obtain ⟨param, hpath, -, -, rfl⟩ := matches_param.mp hmatch
      exact .inr (.inr (.inr (.inr (.inr ⟨rfl, param, hpath, rfl⟩))))

theorem findRoute_item (h : findRoute gin metricsEnabled method path = some route)
    (hitem : route.isItem = true) :
    method = str "POST" ∧ path = itemsPath ∧ route = .createItem ∨
    method = str "GET" ∧ path = itemsPath ∧ route = .listItems ∨
    method = str "GET" ∧ ∃ param, path = itemsPath ++ str "/" ++ param ∧
    route = .getItem param := by
  rcases findRoute_cases h with ⟨-, -, rfl⟩ | ⟨-, -, rfl⟩ | ⟨-, -, rfl⟩ | hitem
  · cases hitem
  · cases hitem
  · cases hitem
  · exact hitem

theorem versioned_of_item (h : findRoute gin metricsEnabled method path = some route)
    (hitem : route.isItem = true) : isVersionedAPIPath path = true := by
  rcases findRoute_item h hitem with ⟨-, rfl, -⟩ | ⟨-, rfl, -⟩ | ⟨-, param, rfl, -⟩
  · decide
  · decide
  · have hitems : itemsPath ++ str "/" = str "/api/v1/" ++ str "items/" := by decide
    rw [hitems, List.append_assoc, isVersionedAPIPath, Bool.or_eq_true, hasPrefix_iff]
    exact .inr ⟨_, rfl⟩

theorem resourceLocation_items (id : UUID) :
    resourceLocation itemsPath id = itemsPath ++ str "/" ++ id.string := by
  have htrim : itemsPath.rdropWhile (· == 47) = itemsPath := by decide
  have hne : itemsPath ≠ [] := by decide
  rw [resourceLocation, pathEscape_string, if_neg hne, htrim]

end

-- ---------------------------------------------------------------------------
-- A router that tries every route
-- ---------------------------------------------------------------------------

def matchPattern : List PathPart → GoString → Option (List GoString)
  | [], path => if path = [] then some [] else none
  | .text s :: parts, path =>
    if hasPrefix path s then matchPattern parts (path.drop s.length) else none
  | .param :: parts, path =>
    let value := path.takeWhile (· != 47)
    if value = [] then none
    else (matchPattern parts (path.dropWhile (· != 47))).map (value :: ·)

theorem matches_of_matchPattern (h : matchPattern parts path = some params) :
    Matches parts path params := by
  induction parts generalizing path params with
  | nil =>
    rw [matchPattern] at h
    split_ifs at h with hpath
    cases h
    rw [hpath]
    exact .nil
  | cons part parts ih =>
    cases part with
    | text s =>
      rw [matchPattern] at h
      split_ifs at h with hpath
      obtain ⟨rest, rfl⟩ := hasPrefix_iff.mp hpath
      rw [List.drop_left] at h
      exact .text (ih h)
    | param =>
      simp only [matchPattern] at h
      split_ifs at h with hvalue
      obtain ⟨params, hparams, rfl⟩ := Option.map_eq_some_iff.mp h
      have hstop : ∀ b ∈ (path.dropWhile (· != 47)).head?, b = 47 := fun b hb => by
        have hnot := List.head?_dropWhile_not (· != 47) path
        rw [Option.mem_def.mp hb] at hnot
        simpa using hnot
      have hsplit := Matches.param hvalue
        (fun hmem => by simpa using List.mem_takeWhile_imp hmem) hstop (ih hparams)
      rwa [List.takeWhile_append_dropWhile] at hsplit

theorem matchPattern_of_matches (h : Matches parts path params) :
    matchPattern parts path = some params := by
  induction h with
  | nil => rfl
  | text _ ih =>
    rw [matchPattern, if_pos (hasPrefix_iff.mpr ⟨_, rfl⟩), List.drop_left, ih]
  | @param value parts rest params hne hslash hrest _ ih =>
    have hvalue : ∀ b ∈ value, (b != 47) = true := fun b hb => by
      simpa using fun h : b = 47 => hslash (h ▸ hb)
    have hstop : rest.takeWhile (· != 47) = [] ∧ rest.dropWhile (· != 47) = rest := by
      cases rest with
      | nil => exact ⟨rfl, rfl⟩
      | cons b rest =>
        cases hrest b rfl
        exact ⟨rfl, rfl⟩
    simp only [matchPattern, List.takeWhile_append_of_pos hvalue,
      List.dropWhile_append_of_pos hvalue,
      hstop.1, hstop.2, List.append_nil, if_neg hne, ih, Option.map_some]

def plainGin : Gin where
  find table method path := table.findSome? fun route =>
    if route.method = method then (matchPattern route.pattern path).map (route, ·) else none
  sound h := by
    obtain ⟨before, route, after, htable, h, -⟩ := List.findSome?_eq_some_iff.mp h
    split_ifs at h with hmethod
    obtain ⟨params, hparams, hroute⟩ := Option.map_eq_some_iff.mp h
    cases hroute
    exact ⟨by simp [htable], hmethod, matches_of_matchPattern hparams⟩
  complete hmem hmethod hmatch := by
    rw [List.findSome?_isSome_iff]
    exact ⟨_, hmem, by simp [hmethod, matchPattern_of_matches hmatch]⟩

end GoClean.Http

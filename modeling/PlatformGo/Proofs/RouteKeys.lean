import PlatformGo.Lib.Joined
import PlatformGo.Lib.Spelling
import PlatformGo.Ref.Route

/-!
# What the id of a route says about it

Of its arguments `NewRoute` uses a normal form: protocol, method and service
trimmed and in lower case, and the segments of the path in lower case
(`Identity`). Spellings with one normal form get one id.

The other way the key says less. It is cut at its colons into the service, the
protocol, the pieces of the method and the names of the segments, so that a
method with a colon runs into the path; and a name is a segment without its
marker, so that a parameter and a literal of that name are one. These are the
only two ways for different routes to have one key (`Confusable`): the pieces
are read off the key, and the names off their escaped forms.
-/

namespace PlatformGo.RoutePolicy

open StableID PlatformGo.Joined

variable {rt : Runtime}

/-! ## The normal form of a route -/

/-- The segments with their markers. -/
@[ext]
structure Identity where
  protocol : String
  method : String
  service : String
  segments : List (List Char)
  deriving DecidableEq, Repr

def RouteArgs.identity (rt : Runtime) (args : RouteArgs) : Identity where
  protocol := rt.toLower (trimSpace args.protocol)
  method := rt.toLower (trimSpace args.method)
  service := rt.toLower (trimSpace args.serviceName)
  segments := (pathSegments (trimSpace args.routePath)).map (List.map rt.lower)

/-- A segment without its marker. -/
def unmarked (segment : List Char) : List Char :=
  trimPrefix '*' (trimPrefix ':' segment)

def Identity.names (x : Identity) : List (List Char) :=
  x.segments.map unmarked

def Identity.key (x : Identity) : String :=
  joinColon ("route".toList :: x.service.toList :: x.protocol.toList ::
    x.method.toList :: x.names.map escape)

theorem lower_iff (hrt : rt.Lawful) {d : Char}
    (hd : d = ':' ∨ d = '*' ∨ d = '/') (c : Char) :
    rt.lower c = d ↔ c = d := by
  constructor
  · intro h
    rw [← h] at hd
    rw [← hrt.separators c hd, h]
  · rintro rfl
    rcases hd with rfl | rfl | rfl
    · exact hrt.ascii _ (by decide)
    · exact hrt.ascii _ (by decide)
    · exact hrt.ascii _ (by decide)

theorem trimPrefix_map {f : Char → Char} {d : Char}
    (hf : ∀ c, f c = d ↔ c = d) (segment : List Char) :
    trimPrefix d (segment.map f) = (trimPrefix d segment).map f := by
  cases segment with
  | nil => rfl
  | cons c segment =>
      rw [List.map_cons, trimPrefix, trimPrefix]
      by_cases hc : c = d
      · rw [if_pos hc, if_pos ((hf c).mpr hc)]
      · rw [if_neg hc, if_neg fun h => hc ((hf c).mp h), List.map_cons]

/-- The marker may be taken off before or after the change to lower case. -/
theorem unmarked_map (hrt : rt.Lawful) (segment : List Char) :
    unmarked (segment.map rt.lower) = segmentName rt segment := by
  rw [unmarked, trimPrefix_map (lower_iff hrt (.inl rfl)),
    trimPrefix_map (lower_iff hrt (.inr (.inl rfl)))]
  rfl

theorem names_identity (hrt : rt.Lawful) (args : RouteArgs) :
    (args.identity rt).names =
      (pathSegments (trimSpace args.routePath)).map (segmentName rt) := by
  rw [Identity.names, RouteArgs.identity, List.map_map]
  exact List.map_congr_left fun segment _ => unmarked_map hrt segment

/-! ## The routes that are accepted -/

theorem routeSegments_ok_iff {segments names : List (List Char)} :
    routeSegments rt segments = .ok names ↔
      (∀ segment ∈ segments, routeSegment (segmentName rt segment) = true) ∧
      (segments.map (segmentName rt)).map escape = names := by
  induction segments generalizing names with
  | nil => simp [routeSegments]
  | cons segment segments ih =>
      have hempty : routeSegment [] = false := rfl
      simp only [routeSegments, List.forall_mem_cons, List.map_cons]
      by_cases hname : routeSegment (segmentName rt segment) = true
      · have hne : segmentName rt segment ≠ [] := by
          intro h
          rw [h, hempty] at hname
          cases hname
        simp only [hne, hname, not_true_eq_false, or_self, if_false, true_and]
        cases hrest : routeSegments rt segments with
        | error err =>
            refine iff_of_false nofun ?_
            rintro ⟨hall, -⟩
            have hok := ih.mpr ⟨hall, rfl⟩
            rw [hrest] at hok
            cases hok
        | ok rest =>
            obtain ⟨hall, rfl⟩ := ih.mp hrest
            rw [Except.ok.injEq]
            exact ⟨fun h => ⟨hall, h⟩, And.right⟩
      · simp [hname]

theorem routeSegments_error {segments : List (List Char)} {err : GoErr}
    (h : routeSegments rt segments = .error err) :
    ∃ text, err = .detail errInvalid text := by
  induction segments with
  | nil => cases h
  | cons segment segments ih =>
      simp only [routeSegments] at h
      split at h
      · exact ⟨_, (Except.error.inj h).symm⟩
      · split at h
        · next hrest =>
            cases h
            exact ih hrest
        · cases h

/-- What `NewRoute` checks itself, of a normal form. -/
structure Checked (x : Identity) : Prop where
  protocol : x.protocol = "http" ∨ x.protocol = "grpc"
  method : x.method ≠ ""
  service : routeSegment x.service.toList = true
  names : ∀ name ∈ x.names, routeSegment name = true

/-- The first check, of what is not the path. -/
theorem complete_iff {protocol method routePath service : String} :
    ¬ ((protocol ≠ "http" ∧ protocol ≠ "grpc") ∨ method = "" ∨ routePath = "" ∨
        service = "" ∨ ¬ routeSegment service.toList = true) ↔
      (protocol = "http" ∨ protocol = "grpc") ∧ method ≠ "" ∧ routePath ≠ "" ∧
        routeSegment service.toList = true := by
  have hempty : routeSegment service.toList = true → service ≠ "" := by
    rintro h rfl
    cases h
  simp only [ne_eq, not_or, not_and, not_not, ← or_iff_not_imp_left]
  constructor
  · rintro ⟨hprotocol, hmethod, hpath, -, hservice⟩
    exact ⟨hprotocol, hmethod, hpath, hservice⟩
  · rintro ⟨hprotocol, hmethod, hpath, hservice⟩
    exact ⟨hprotocol, hmethod, hpath, hempty hservice, hservice⟩

/-- The empty path has one segment, which is empty. -/
theorem ne_empty_of_names {routePath : String}
    (h : ∀ segment ∈ pathSegments routePath,
      routeSegment (segmentName rt segment) = true) : routePath ≠ "" := by
  rintro rfl
  have hname := h [] (List.mem_singleton_self _)
  rw [segmentName, trimPrefix, trimPrefix, List.map_nil] at hname
  cases hname

theorem newRoute_of_checked (hrt : rt.Lawful) {args : RouteArgs}
    (h : Checked (args.identity rt)) {result : Except GoErr String}
    (hresult : rt.generate routeNamespace (args.identity rt).key = result) :
    newRoute rt args =
      match result with
      | .error err => .error (.wrap "generate route id" err)
      | .ok id =>
          .ok {
            id
            protocol := (args.identity rt).protocol
            method := (args.identity rt).method
            path := trimSpace args.routePath
            serviceName := (args.identity rt).service
            sourceVersion := args.sourceVersion } := by
  obtain ⟨hprotocol, hmethod, hservice, hnames⟩ := h
  rw [names_identity hrt, List.forall_mem_map] at hnames
  have hcomplete := complete_iff.mpr
    ⟨hprotocol, hmethod, ne_empty_of_names hnames, hservice⟩
  have hsegments := routeSegments_ok_iff.mpr ⟨hnames, rfl⟩
  rw [Identity.key, names_identity hrt] at hresult
  simp only [RouteArgs.identity] at hcomplete hresult ⊢
  simp only [newRoute, if_neg hcomplete, hsegments, hresult]
  cases result <;> rfl

theorem newRoute_of_not_checked (hrt : rt.Lawful) {args : RouteArgs}
    (h : ¬ Checked (args.identity rt)) :
    ∃ text, newRoute rt args = .error (.detail errInvalid text) := by
  simp only [newRoute]
  split
  · exact ⟨_, rfl⟩
  next hcomplete =>
  obtain ⟨hprotocol, hmethod, -, hservice⟩ := complete_iff.mp hcomplete
  cases hsegments : routeSegments rt (pathSegments (trimSpace args.routePath)) with
  | error err =>
      obtain ⟨text, rfl⟩ := routeSegments_error hsegments
      exact ⟨text, rfl⟩
  | ok segments =>
      obtain ⟨hnames, -⟩ := routeSegments_ok_iff.mp hsegments
      refine absurd ⟨hprotocol, hmethod, hservice, ?_⟩ h
      rw [names_identity hrt]
      exact List.forall_mem_map.mpr hnames

/-- What a normal form has to satisfy, and the id it then has. -/
structure Keyed (rt : Runtime) (x : Identity) (id : String) : Prop where
  protocol : x.protocol = "http" ∨ x.protocol = "grpc"
  method : x.method ≠ ""
  service : routeSegment x.service.toList = true
  names : ∀ name ∈ x.names, routeSegment name = true
  id : rt.generate routeNamespace x.key = .ok id

theorem Keyed.checked {x : Identity} {id : String} (h : Keyed rt x id) : Checked x :=
  ⟨h.protocol, h.method, h.service, h.names⟩

theorem keyed_of_newRoute (hrt : rt.Lawful) {args : RouteArgs} {r : Route}
    (h : newRoute rt args = .ok r) : Keyed rt (args.identity rt) r.id := by
  by_cases hchecked : Checked (args.identity rt)
  · cases hresult : rt.generate routeNamespace (args.identity rt).key with
    | error err =>
        rw [newRoute_of_checked hrt hchecked hresult] at h
        cases h
    | ok id =>
        rw [newRoute_of_checked hrt hchecked hresult] at h
        cases h
        obtain ⟨hprotocol, hmethod, hservice, hnames⟩ := hchecked
        exact ⟨hprotocol, hmethod, hservice, hnames, hresult⟩
  · obtain ⟨text, herr⟩ := newRoute_of_not_checked hrt hchecked
    rw [herr] at h
    cases h

theorem newRoute_of_keyed (hrt : rt.Lawful) {args : RouteArgs} {id : String}
    (h : Keyed rt (args.identity rt) id) :
    ∃ r, newRoute rt args = .ok r ∧ r.id = id := by
  rw [newRoute_of_checked hrt h.checked h.id]
  exact ⟨_, rfl, rfl⟩

theorem generate_ok {namespaceID key id : String}
    (h : rt.generate namespaceID key = .ok id) :
    rt.newSHA1 namespaceID key = id := by
  unfold Runtime.generate at h
  split at h
  · cases h
  · cases h
    rfl

/-! ## The pieces of a key -/

theorem isKeyChar_colon : StableID.isKeyChar ':' = false := by decide

theorem colon_notMem_of_routeSegment {s : List Char}
    (h : routeSegment s = true) : ':' ∉ s := by
  intro hmem
  rw [routeSegment, Bool.and_eq_true, List.all_eq_true] at h
  have hcolon := h.2 ':' hmem
  rw [isKeyChar_colon] at hcolon
  cases hcolon

theorem escape_cases (s : List Char) :
    escape s = s ∨ escape s = 'x' :: '-' :: s := by
  unfold escape
  split
  · exact .inr rfl
  · exact .inl rfl

theorem colon_notMem_escape {s : List Char} (h : ':' ∉ s) :
    ':' ∉ escape s := by
  rcases escape_cases s with heq | heq
  · rw [heq]
    exact h
  · rw [heq]
    simp [h]

/-- Nothing that begins with the escape is left as it is. -/
theorem escape_ne (s t : List Char) (h : escape t = t) :
    t ≠ 'x' :: '-' :: s := by
  rintro rfl
  have hlength := congrArg List.length h
  simp only [escape, List.isPrefixOf, beq_self_eq_true, Bool.true_and,
    Bool.or_true, if_true, List.length_cons] at hlength
  omega

theorem escape_injective : Function.Injective escape := by
  intro s t h
  rcases escape_cases s with hs | hs
  · rcases escape_cases t with ht | ht
    · rw [hs, ht] at h
      exact h
    · rw [ht, hs] at h
      exact absurd h (escape_ne t s hs)
  · rcases escape_cases t with ht | ht
    · rw [hs, ht] at h
      exact absurd h.symm (escape_ne s t ht)
    · rw [hs, ht] at h
      simpa using h

/-- What stands in a key behind the protocol: the pieces of the method and the
names of the segments. -/
def Identity.readings (x : Identity) : List (List Char) :=
  x.method.toList.splitOn ':' ++ x.names.map escape

theorem key_pieces {x : Identity} (h : Checked x) :
    x.key.toList.splitOn ':' =
      "route".toList :: x.service.toList :: x.protocol.toList ::
        x.readings := by
  have hprotocol : ':' ∉ x.protocol.toList := by
    rcases h.protocol with heq | heq
    · rw [heq]
      decide
    · rw [heq]
      decide
  have hservice := colon_notMem_of_routeSegment h.service
  have hroute : ':' ∉ "route".toList := by decide
  have hnames : ∀ name ∈ x.names.map escape, ':' ∉ name :=
    List.forall_mem_map.mpr fun name hname =>
      colon_notMem_escape (colon_notMem_of_routeSegment (h.names name hname))
  rw [Identity.key, joinColon, String.toList_ofList,
    splitOn_intercalate_flatMap (List.cons_ne_nil _ _)]
  simp only [List.flatMap_cons]
  rw [List.splitOn_eq_singleton hroute, List.splitOn_eq_singleton hservice,
    List.splitOn_eq_singleton hprotocol, flatMap_splitOn hnames]
  rfl

theorem key_eq_iff {x y : Identity} {idX idY : String} (hx : Keyed rt x idX)
    (hy : Keyed rt y idY) :
    x.key = y.key ↔ x.service = y.service ∧ x.protocol = y.protocol ∧
      x.readings = y.readings := by
  rw [← String.toList_inj, ← @splitOn_inj _ ':', key_pieces hx.checked,
    key_pieces hy.checked]
  simp [String.toList_inj]

/-! ## Routes with one key -/

/-- The two ways for different routes to have one key. -/
inductive Confusable (x y : Identity) : Prop
  /-- Segments of the same names, not all with the same markers. -/
  | markers (hservice : x.service = y.service)
      (hprotocol : x.protocol = y.protocol) (hmethod : x.method = y.method)
      (hnames : x.names = y.names) (hsegments : x.segments ≠ y.segments)
  /-- Methods that run into the path. -/
  | method (hservice : x.service = y.service)
      (hprotocol : x.protocol = y.protocol) (hmethod : x.method ≠ y.method)
      (hreadings : x.readings = y.readings)

theorem confusable_iff {x y : Identity} {idX idY : String}
    (hx : Keyed rt x idX) (hy : Keyed rt y idY) :
    Confusable x y ↔ x.key = y.key ∧ x ≠ y := by
  rw [key_eq_iff hx hy]
  constructor
  · intro h
    cases h with
    | markers hservice hprotocol hmethod hnames hsegments =>
        refine ⟨⟨hservice, hprotocol, ?_⟩, ?_⟩
        · rw [Identity.readings, hmethod, hnames, Identity.readings]
        · rintro rfl
          exact hsegments rfl
    | method hservice hprotocol hmethod hreadings =>
        refine ⟨⟨hservice, hprotocol, hreadings⟩, ?_⟩
        rintro rfl
        exact hmethod rfl
  · rintro ⟨⟨hservice, hprotocol, hreadings⟩, hne⟩
    by_cases hmethod : x.method = y.method
    · rw [Identity.readings, Identity.readings, hmethod,
        List.append_cancel_left_eq] at hreadings
      refine .markers hservice hprotocol hmethod
        (List.map_injective_iff.mpr escape_injective hreadings) ?_
      intro hsegments
      exact hne (Identity.ext hprotocol hmethod hservice hsegments)
    · exact .method hservice hprotocol hmethod hreadings

/-- The marker of a segment. -/
def marker : List Char → List Char
  | ':' :: '*' :: _ => [':', '*']
  | ':' :: _ => [':']
  | '*' :: _ => ['*']
  | _ => []

theorem marker_append_unmarked (segment : List Char) :
    marker segment ++ unmarked segment = segment := by
  unfold marker
  split
  · rfl
  · next c cs hstar =>
      cases cs with
      | nil => rfl
      | cons d cs =>
          have hd : d ≠ '*' := by
            rintro rfl
            exact hstar cs rfl
          simp [unmarked, trimPrefix, hd]
  · rfl
  · next hcolon hstar =>
      cases segment with
      | nil => rfl
      | cons d cs =>
          have hd : d ≠ ':' := by
            rintro rfl
            exact hcolon cs rfl
          have hd' : d ≠ '*' := by
            rintro rfl
            exact hstar cs rfl
          simp [unmarked, trimPrefix, hd, hd']

/-- With methods that hold no colon, and the same markers in the same places,
there is nothing to confuse. -/
theorem not_confusable {x y : Identity} (hx : ':' ∉ x.method.toList)
    (hy : ':' ∉ y.method.toList)
    (hmarkers : x.segments.map marker = y.segments.map marker) :
    ¬ Confusable x y := by
  intro h
  cases h with
  | markers _ _ _ hnames hsegments =>
      refine hsegments ?_
      have hpairs := congrArg₂ List.zip hmarkers hnames
      rw [Identity.names, Identity.names, List.zip_map', List.zip_map']
        at hpairs
      refine List.map_injective_iff.mpr ?_ hpairs
      intro s t hst
      rw [Prod.mk.injEq] at hst
      rw [← marker_append_unmarked s, hst.1, hst.2, marker_append_unmarked]
  | method _ _ hmethod hreadings =>
      rw [Identity.readings, Identity.readings,
        List.splitOn_eq_singleton hx, List.splitOn_eq_singleton hy,
        List.singleton_append, List.singleton_append, List.cons.injEq]
        at hreadings
      exact hmethod (String.toList_inj.mp hreadings.1)

/-! ## Spellings of one route -/

/-- The arguments differ in letter case, surrounding white space, slashes at
the ends of the path and the source version. -/
structure SpelledAlike (rt : Runtime) (a b : RouteArgs) : Prop where
  protocol : rt.toLower (trimSpace a.protocol) =
    rt.toLower (trimSpace b.protocol)
  method : rt.toLower (trimSpace a.method) = rt.toLower (trimSpace b.method)
  service : rt.toLower (trimSpace a.serviceName) =
    rt.toLower (trimSpace b.serviceName)
  path : (trimChar '/' (trimSpace a.routePath).toList).map rt.lower =
    (trimChar '/' (trimSpace b.routePath).toList).map rt.lower

theorem SpelledAlike.identity (hrt : rt.Lawful) {a b : RouteArgs}
    (h : SpelledAlike rt a b) : a.identity rt = b.identity rt := by
  have hslash := lower_iff hrt (d := '/') (.inr (.inr rfl))
  refine Identity.ext h.protocol h.method h.service ?_
  simp only [RouteArgs.identity, pathSegments]
  rw [← splitOn_map hslash, h.path, splitOn_map hslash]

/-- Two accepted routes have one id only if they are one, exactly when they
are not confusable; and every spelling of a route is accepted with its id. -/
theorem route_ids_iff (hrt : rt.Lawful) {a b : RouteArgs} {r s : Route}
    (ha : newRoute rt a = .ok r) (hb : newRoute rt b = .ok s)
    (hcollision :
      rt.newSHA1 routeNamespace (a.identity rt).key =
        rt.newSHA1 routeNamespace (b.identity rt).key →
      (a.identity rt).key = (b.identity rt).key) :
    (((a.identity rt).key = (b.identity rt).key →
        a.identity rt = b.identity rt) ↔
      ¬ Confusable (a.identity rt) (b.identity rt)) ∧
    ((r.id = s.id → a.identity rt = b.identity rt) ↔
      ¬ Confusable (a.identity rt) (b.identity rt)) ∧
    ∀ a', SpelledAlike rt a a' →
      ∃ r', newRoute rt a' = .ok r' ∧ r'.id = r.id := by
  have hka := keyed_of_newRoute hrt ha
  have hkb := keyed_of_newRoute hrt hb
  have hids : r.id = s.id ↔ (a.identity rt).key = (b.identity rt).key := by
    rw [← generate_ok hka.id, ← generate_ok hkb.id]
    exact ⟨hcollision, congrArg _⟩
  refine ⟨?_, ?_, ?_⟩
  · rw [confusable_iff hka hkb]
    exact not_and_not_right.symm
  · rw [confusable_iff hka hkb, hids]
    exact not_and_not_right.symm
  · intro a' halike
    rw [halike.identity hrt] at hka
    exact newRoute_of_keyed hrt hka

/-! ### Getting one by its id -/

def getByID : String := "f1c383f5-4aeb-5339-8eda-62a038f06de4"

/-- The library on ASCII, with the two ids that are needed. -/
def asciiRuntime : Runtime where
  lower := Char.toLower
  isPrint _ := true
  newSHA1 _ key :=
    if key = "route:orders:http:get:a:id" then getByID
    else if key = "route:orders:http:get:a:no" then
      "3e89ba5f-e52d-5475-92ee-c10900ea5145"
    else ""

theorem asciiRuntime_lawful : asciiRuntime.Lawful := by
  refine ⟨fun _ _ => rfl, ?_⟩
  intro c h
  by_cases hc : c.toNat < 128
  · exact Spelling.of_ascii (P := fun c => c.toLower = ':' ∨ c.toLower = '*' ∨
      c.toLower = '/' → c.toLower = c) (by decide) hc h
  · exact Spelling.toLower_of_not_ascii (by omega)

theorem newRoute_of_id {args : RouteArgs} {id : String}
    (h : (newRoute rt args).toOption.map Route.id = some id) :
    ∃ r, newRoute rt args = .ok r ∧ r.id = id := by
  cases hroute : newRoute rt args with
  | error err =>
      rw [hroute] at h
      cases h
  | ok r =>
      rw [hroute] at h
      exact ⟨r, rfl, Option.some.inj h⟩

def getRoute (method routePath : String) : RouteArgs :=
  { protocol := "http", method, routePath, serviceName := "orders"
    sourceVersion := "v1" }

/-- A parameter and a literal of its name share an id, and so do a method with
a colon and the path that begins with what follows it. -/
theorem routes_share_id : ∃ r s t,
    newRoute asciiRuntime (getRoute "GET" "/a/:id") = .ok r ∧
      newRoute asciiRuntime (getRoute "GET" "/a/id") = .ok s ∧
      newRoute asciiRuntime (getRoute "GET:a" "/id") = .ok t ∧
      r.id = getByID ∧ s.id = getByID ∧ t.id = getByID ∧
      (getRoute "GET" "/a/:id").identity asciiRuntime ≠
        (getRoute "GET" "/a/id").identity asciiRuntime ∧
      (getRoute "GET" "/a/id").identity asciiRuntime ≠
        (getRoute "GET:a" "/id").identity asciiRuntime := by
  have hids : ∀ args ∈ [getRoute "GET" "/a/:id",
      getRoute "GET" "/a/id", getRoute "GET:a" "/id"],
      (newRoute asciiRuntime args).toOption.map Route.id =
        some getByID := by
    decide +kernel
  simp only [List.forall_mem_cons] at hids
  obtain ⟨hr, hs, ht, -⟩ := hids
  obtain ⟨r, hr, hrid⟩ := newRoute_of_id hr
  obtain ⟨s, hs, hsid⟩ := newRoute_of_id hs
  obtain ⟨t, ht, htid⟩ := newRoute_of_id ht
  refine ⟨r, s, t, hr, hs, ht, hrid, hsid, htid, ?_, ?_⟩
  · decide +kernel
  · decide +kernel

/-- Two parameters of different names in one place, and another spelling. -/
theorem route_ids_iff_parameters : ∃ r s r',
    newRoute asciiRuntime (getRoute "GET" "/a/:id") = .ok r ∧
      newRoute asciiRuntime (getRoute "GET" "/a/:no") = .ok s ∧
      r.id ≠ s.id ∧
      newRoute asciiRuntime (getRoute " get " "a/:ID/ ") = .ok r' ∧
      r'.id = r.id := by
  have hids : ∀ routePath ∈ ["/a/:id", "/a/:no"],
      ((newRoute asciiRuntime (getRoute "GET" routePath)).toOption.map
        Route.id).isSome = true := by
    decide +kernel
  simp only [List.forall_mem_cons, Option.isSome_iff_exists] at hids
  obtain ⟨⟨id, hr⟩, ⟨id', hs⟩, -⟩ := hids
  obtain ⟨r, hr, -⟩ := newRoute_of_id hr
  obtain ⟨s, hs, -⟩ := newRoute_of_id hs
  have hplain : ¬ Confusable
      ((getRoute "GET" "/a/:id").identity asciiRuntime)
      ((getRoute "GET" "/a/:no").identity asciiRuntime) := by
    refine not_confusable ?_ ?_ ?_
    · decide +kernel
    · decide +kernel
    · decide +kernel
  have hcollision : asciiRuntime.newSHA1 routeNamespace
      ((getRoute "GET" "/a/:id").identity asciiRuntime).key ≠
      asciiRuntime.newSHA1 routeNamespace
        ((getRoute "GET" "/a/:no").identity asciiRuntime).key := by
    decide +kernel
  obtain ⟨-, hiff, hspelled⟩ := route_ids_iff asciiRuntime_lawful hr hs
    fun h => absurd h hcollision
  obtain ⟨r', hr', hid⟩ := hspelled (getRoute " get " "a/:ID/ ") <| by
    refine ⟨rfl, ?_, rfl, ?_⟩
    · decide +kernel
    · decide +kernel
  refine ⟨r, s, r', hr, hs, ?_, hr', hid⟩
  intro hsame
  exact absurd (hiff.mpr hplain hsame) (by decide +kernel)

end PlatformGo.RoutePolicy

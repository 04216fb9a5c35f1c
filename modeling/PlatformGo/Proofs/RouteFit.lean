import PlatformGo.Proofs.RouteKeys

/-!
# What a route is checked for and what its key is checked for

`NewRoute` checks the service and the segments of the path against one regular
expression, and `stableid` checks the key made of them against another. The
first allows a text of key characters, the second wants every part to begin
with a letter or a digit. The escape of a segment makes up for a dot at its
front and for nothing else, the service is not escaped, and of the method it is
only asked that it is not empty.

`canonicalKey_iff` says which routes pass both checks. A route that passes the
first alone is refused with an error of the second, which is not `ErrInvalid`.
-/

namespace PlatformGo.RoutePolicy

open StableID PlatformGo.Joined

variable {rt : Runtime}

/-! ## Keys in canonical form -/

theorem isPlain_of_isKeyChar {c : Char} (h : StableID.isKeyChar c = true) :
    Spelling.IsPlain c := by
  simp only [StableID.isKeyChar, Bool.or_eq_true, Bool.and_eq_true,
    decide_eq_true_eq] at h
  refine Spelling.isPlain_of_word ?_
  simpa [or_assoc, or_left_comm] using h

theorem isKeyChar_of_isPart {first : Char → Bool} {part : List Char}
    (hfirst : ∀ c, first c = true → StableID.isKeyChar c = true)
    (h : isPart first part = true) : ∀ c ∈ part, StableID.isKeyChar c = true := by
  cases part with
  | nil => simp
  | cons c part =>
      rw [isPart, Bool.and_eq_true, List.all_eq_true] at h
      rw [List.forall_mem_cons]
      exact ⟨hfirst c h.1, h.2⟩

theorem isKeyChar_of_isLetterOrDigit {c : Char} (h : isLetterOrDigit c = true) :
    StableID.isKeyChar c = true := by
  rw [isLetterOrDigit] at h
  simp [StableID.isKeyChar, h]

theorem isKeyChar_of_isLetter {c : Char} (h : isLetter c = true) :
    StableID.isKeyChar c = true := by
  rw [isLetter] at h
  simp [StableID.isKeyChar, h]

theorem plain_of_canonicalKey {key : String} (h : canonicalKey key = true) :
    Spelling.Plain key := by
  have hparts : ∀ part ∈ key.toList.splitOn ':', ∀ c ∈ part,
      StableID.isKeyChar c = true := by
    rw [canonicalKey] at h
    split at h
    · next first part parts hsplit =>
        rw [Bool.and_eq_true, List.all_eq_true] at h
        rw [hsplit, List.forall_mem_cons]
        refine ⟨isKeyChar_of_isPart (fun _ => isKeyChar_of_isLetter) h.1, ?_⟩
        intro other hother
        exact isKeyChar_of_isPart (fun _ => isKeyChar_of_isLetterOrDigit)
          (h.2 other hother)
    · cases h
  intro c hc
  rcases mem_splitOn ':' hc with rfl | ⟨part, hpart, hmem⟩
  · decide
  · exact isPlain_of_isKeyChar (hparts part hpart c hmem)

/-- The other two tests of `stableid` are implied by the regular expression. -/
theorem generate_eq (hrt : rt.Lawful) {namespaceID key : String}
    (h : canonicalKey key = true) :
    rt.generate namespaceID key = .ok (rt.newSHA1 namespaceID key) := by
  have hplain := plain_of_canonicalKey h
  have htrim : trimSpace key = key :=
    Spelling.trimSpace_eq_self fun c hc => (hplain c hc).2.1
  have hlower : rt.toLower key = key := Spelling.ofList_map_plain hrt.ascii hplain
  rw [Runtime.generate, htrim, hlower, h]
  simp

/-! ## Parts that fit -/

/-- The text begins with one of the marks. -/
def opens (marks s : List Char) : Bool := s.head?.any marks.contains

/-- Of a text of key characters, the first is a letter, a digit or a mark. -/
theorem isPart_iff_of_routeSegment {s : List Char} (h : routeSegment s = true) :
    isPart isLetterOrDigit s = true ↔ opens ['_', '-', '.'] s = false := by
  cases s with
  | nil => cases h
  | cons c s =>
      rw [routeSegment, Bool.and_eq_true, List.all_cons, Bool.and_eq_true] at h
      obtain ⟨-, hc, hs⟩ := h
      have hplain := isPlain_of_isKeyChar hc
      rw [isPart, hs, Bool.and_true]
      exact Spelling.of_ascii (P := fun c => StableID.isKeyChar c = true →
        (isLetterOrDigit c = true ↔ opens ['_', '-', '.'] (c :: s) = false))
        (by simp only [opens, List.head?_cons, Option.any_some]; decide) hplain.1 hc

theorem isPart_escape_iff {s : List Char} (h : routeSegment s = true) :
    isPart isLetterOrDigit (escape s) = true ↔ opens ['_', '-'] s = false := by
  rw [escape]
  split
  · next hescape =>
      -- what is escaped begins with a dot or an x, and then with an x for sure
      have hall : s.all StableID.isKeyChar = true := by
        rw [routeSegment, Bool.and_eq_true] at h
        exact h.2
      refine iff_of_true ?_ ?_
      · rw [isPart, List.all_cons, hall]
        decide
      · cases s with
        | nil => rfl
        | cons c s =>
            simp only [List.isPrefixOf, Bool.or_eq_true, Bool.and_eq_true,
              beq_iff_eq] at hescape
            rcases hescape with ⟨rfl, -⟩ | ⟨rfl, -⟩ <;> rfl
  · next hescape =>
      -- a dot would have been escaped, so it is not among the marks any more
      rw [isPart_iff_of_routeSegment h]
      cases s with
      | nil => cases h
      | cons c s =>
          have hdot : c ≠ '.' := by
            rintro rfl
            simp at hescape
          simp [opens, hdot]

/-- What the key needs beyond the checks of `NewRoute`. -/
structure Fitting (x : Identity) : Prop where
  service : opens ['_', '-', '.'] x.service.toList = false
  method : ∀ piece ∈ x.method.toList.splitOn ':', isPart isLetterOrDigit piece = true
  names : ∀ name ∈ x.names, opens ['_', '-'] name = false

theorem canonicalKey_iff {x : Identity} (h : Checked x) :
    canonicalKey x.key = true ↔ Fitting x := by
  have hprotocol : isPart isLetterOrDigit x.protocol.toList = true := by
    rcases h.protocol with heq | heq
    · rw [heq]
      decide
    · rw [heq]
      decide
  have hroute : isPart isLetter "route".toList = true := by decide
  have hnames : (∀ name ∈ x.names.map escape, isPart isLetterOrDigit name = true) ↔
      ∀ name ∈ x.names, opens ['_', '-'] name = false := by
    rw [List.forall_mem_map]
    exact forall₂_congr fun name hname => isPart_escape_iff (h.names name hname)
  rw [canonicalKey, key_pieces h]
  simp only [hroute, Bool.true_and]
  rw [List.all_eq_true, List.forall_mem_cons, List.forall_mem_cons, Identity.readings,
    List.forall_mem_append, hnames, isPart_iff_of_routeSegment h.service]
  constructor
  · rintro ⟨hservice, -, hmethod, hnames⟩
    exact ⟨hservice, hmethod, hnames⟩
  · intro hfit
    exact ⟨hfit.service, hprotocol, hfit.method, hfit.names⟩

/-! ## The two checks -/

/-- The checks of `NewRoute` are enough for the id, and its errors are
`ErrInvalid`. -/
def ChecksSuffice (rt : Runtime) (args : RouteArgs) : Prop :=
  (Checked (args.identity rt) →
    canonicalKey (args.identity rt).key = true ∧
      ∃ id, rt.generate routeNamespace (args.identity rt).key = .ok id) ∧
  ∀ err, newRoute rt args = .error err → err.is "route policy invalid" = true

theorem route_checks_suffice_iff (hrt : rt.Lawful) (args : RouteArgs) :
    ChecksSuffice rt args ↔
      (Checked (args.identity rt) → Fitting (args.identity rt)) := by
  constructor
  · intro h hchecked
    exact (canonicalKey_iff hchecked).mp (h.1 hchecked).1
  · intro hfit
    have hkey : Checked (args.identity rt) →
        canonicalKey (args.identity rt).key = true :=
      fun hchecked => (canonicalKey_iff hchecked).mpr (hfit hchecked)
    refine ⟨fun hchecked => ⟨hkey hchecked, _, generate_eq hrt (hkey hchecked)⟩, ?_⟩
    intro err herr
    by_cases hchecked : Checked (args.identity rt)
    · rw [newRoute_of_checked hrt hchecked (generate_eq hrt (hkey hchecked))] at herr
      cases herr
    · obtain ⟨text, hinvalid⟩ := newRoute_of_not_checked hrt hchecked
      rw [hinvalid] at herr
      cases herr
      rfl

/-- A parameter of a path. -/
theorem route_checks_suffice_parameter :
    ChecksSuffice asciiRuntime (getRoute "GET" "/a/:id") := by
  refine (route_checks_suffice_iff asciiRuntime_lawful _).mpr fun _ => ?_
  exact ⟨by decide +kernel, by decide +kernel, by decide +kernel⟩

/-- A segment with an underscore in front passes the checks and is refused by
`stableid`. -/
theorem route_checks_pass_refused :
    Checked ((getRoute "GET" "/_health").identity asciiRuntime) ∧
      canonicalKey ((getRoute "GET" "/_health").identity asciiRuntime).key = false ∧
      ¬ ChecksSuffice asciiRuntime (getRoute "GET" "/_health") ∧
      ∃ err, newRoute asciiRuntime (getRoute "GET" "/_health") =
          .error (.wrap "generate route id" err) ∧
        err.is "route policy invalid" = false := by
  have hchecked : Checked ((getRoute "GET" "/_health").identity asciiRuntime) :=
    ⟨by decide +kernel, by decide +kernel, by decide +kernel, by decide +kernel⟩
  have hkey : canonicalKey ((getRoute "GET" "/_health").identity asciiRuntime).key =
      false := by
    decide +kernel
  refine ⟨hchecked, hkey, ?_, ?_⟩
  · intro h
    exact absurd (h.1 hchecked).1 (by rw [hkey]; exact Bool.false_ne_true)
  · have hresult : asciiRuntime.generate routeNamespace
        ((getRoute "GET" "/_health").identity asciiRuntime).key =
        .error (.detail errInvalidKey (quote asciiRuntime.isPrint
          ((getRoute "GET" "/_health").identity asciiRuntime).key)) := by
      rw [Runtime.generate, hkey]
      simp
    refine ⟨_, newRoute_of_checked asciiRuntime_lawful hchecked hresult, ?_⟩
    decide

end PlatformGo.RoutePolicy

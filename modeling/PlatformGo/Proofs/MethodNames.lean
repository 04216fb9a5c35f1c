import PlatformGo.Lib.Joined
import PlatformGo.Ref.DynamicGrpc

/-!
# The method that is checked and the method that is called

The name of a method is read twice. The check trims it, takes one slash off its
front and puts a dot for the slash that is left. The call takes the slash off
without trimming and has `grpcurl` cut what remains at its last slash.

A name that is accepted falls into white space, at most one slash, a service
and a method with a slash between them, and white space again (`Parts`). Both
readings are read off the parts. They agree when the outer parts are empty:
white space in front keeps the slash from being taken off, white space behind
stays with the method.
-/

namespace PlatformGo.DynamicGrpc

open Utf8 (Blank spaces)

/-- The service and the method that `Invoke` has `grpcurl` call. -/
def invoked (fullMethod : Bytes) : Bytes × Bytes :=
  parseSymbol (trimPrefix slash fullMethod)

/-- Text without a white space character. -/
def SpaceFree (b : Bytes) : Prop := ∀ w ∈ spaces, ¬ w <:+: b

instance (b : Bytes) : Decidable (SpaceFree b) :=
  inferInstanceAs (Decidable (∀ w ∈ spaces, ¬ w <:+: b))

theorem slash_notMem_spaces : slash ∉ spaces.flatten := by decide +kernel

theorem slash_notMem_of_blank {b : Bytes} (h : Blank b) : slash ∉ b :=
  fun hmem => slash_notMem_spaces (h.mem hmem)

theorem not_spaceFree_of_blank {l : Bytes} (h : Blank l) (hne : l ≠ []) (b : Bytes) :
    ¬ SpaceFree (l ++ b) := by
  cases h with
  | nil => exact absurd rfl hne
  | @cons w rest hw hrest =>
      intro hfree
      refine hfree w hw ?_
      rw [List.append_assoc]
      exact (List.prefix_append w _).isInfix

/-- A slash in front is no white space and no part of one. -/
theorem spaceFree_slash {b : Bytes} : SpaceFree (slash :: b) ↔ SpaceFree b := by
  constructor
  · intro h w hw hinfix
    exact h w hw (List.infix_cons hinfix)
  · intro h w hw hinfix
    rcases List.infix_cons_iff.mp hinfix with hpre | hinfix
    · cases w with
      | nil => exact Utf8.spaces_ne_nil hw rfl
      | cons c w =>
          obtain ⟨rfl, _⟩ := List.cons_prefix_cons.mp hpre
          exact slash_notMem_spaces (List.mem_flatten.mpr ⟨_, hw, List.mem_cons_self⟩)
    · exact h w hw hinfix

theorem trimPrefix_eq_self {a : Bytes} (hne : a ≠ []) (h : slash ∉ a) (b : Bytes) :
    trimPrefix slash (a ++ b) = a ++ b := by
  cases a with
  | nil => exact absurd rfl hne
  | cons c a =>
      have hc : c ≠ slash := fun hc => h (hc ▸ List.mem_cons_self)
      rw [List.cons_append, trimPrefix, if_neg hc]

theorem parseSymbol_append {b : Bytes} (h : slash ∉ b) (a : Bytes) :
    parseSymbol (a ++ slash :: b) = (a, b) := by
  rw [parseSymbol, Utf8.cutLast_append h]

/-! ## The parts of a name -/

structure Parts (v : Bytes) where
  left : Bytes
  /-- The slash in front of the service, if there is one. -/
  lead : Bytes
  service : Bytes
  method : Bytes
  right : Bytes
  blank_left : Blank left
  blank_right : Blank right
  lead_eq : lead = [] ∨ lead = [slash]
  service_ne_nil : service ≠ []
  slash_notMem_service : slash ∉ service
  slash_notMem_method : slash ∉ method
  trimSpace_eq : Utf8.trimSpace v = lead ++ (service ++ slash :: method)
  eq : v = left ++ (lead ++ (service ++ slash :: (method ++ right)))

theorem exists_lead (b : Bytes) :
    ∃ lead, (lead = [] ∨ lead = [slash]) ∧ b = lead ++ trimPrefix slash b := by
  cases b with
  | nil => exact ⟨[], .inl rfl, rfl⟩
  | cons c b =>
      rw [trimPrefix]
      split
      · next hc => exact ⟨[slash], .inr rfl, by rw [hc]; rfl⟩
      · exact ⟨[], .inl rfl, rfl⟩

theorem nonempty_parts {v : Bytes} (h : validFullMethod v = true) :
    Nonempty (Parts v) := by
  rw [validFullMethod] at h
  split at h
  · next service method hsplit =>
      obtain ⟨htrim, hservice, hmethod⟩ := Joined.eq_of_splitOn_eq_pair hsplit
      rw [Bool.and_eq_true] at h
      have hne : service ≠ [] := by
        rintro rfl
        simp at h
      obtain ⟨left, right, hleft, hright, hv⟩ := Utf8.exists_trimSpace v
      obtain ⟨lead, hlead, heq⟩ := exists_lead (Utf8.trimSpace v)
      rw [htrim] at heq
      refine ⟨left, lead, service, method, right, hleft, hright, hlead, hne, hservice,
        hmethod, heq, ?_⟩
      rw [hv, heq]
      simp
  · cases h

namespace Parts

variable {v : Bytes} (p : Parts v)

theorem slash_notMem_end : slash ∉ p.method ++ p.right := by
  rw [List.mem_append, not_or]
  exact ⟨p.slash_notMem_method, slash_notMem_of_blank p.blank_right⟩

theorem trimPrefix_lead (b : Bytes) :
    trimPrefix slash (p.lead ++ (p.service ++ b)) = p.service ++ b := by
  rcases p.lead_eq with h | h
  · rw [h, List.nil_append, trimPrefix_eq_self p.service_ne_nil p.slash_notMem_service]
  · rw [h, List.singleton_append, trimPrefix, if_pos rfl]

theorem symbolName_eq : symbolName v = p.service ++ dot :: p.method := by
  rw [symbolName, p.trimSpace_eq, p.trimPrefix_lead, replaceFirst,
    Utf8.cut_append p.slash_notMem_service]

theorem parseSymbol_eq :
    parseSymbol v = (p.left ++ (p.lead ++ p.service), p.method ++ p.right) := by
  have hcut := parseSymbol_append p.slash_notMem_end (p.left ++ (p.lead ++ p.service))
  rwa [List.append_assoc, List.append_assoc, ← p.eq] at hcut

theorem invoked_eq (h : p.left = []) : invoked v = (p.service, p.method ++ p.right) := by
  have htrim : trimPrefix slash v = p.service ++ slash :: (p.method ++ p.right) := by
    have hv := congrArg (trimPrefix slash) p.eq
    rwa [h, List.nil_append, p.trimPrefix_lead] at hv
  rw [invoked, htrim, parseSymbol_append p.slash_notMem_end]

/-- With white space in front nothing is taken off. -/
theorem invoked_eq_parseSymbol (h : p.left ≠ []) : invoked v = parseSymbol v := by
  have htrim : trimPrefix slash v = v := by
    have hv := congrArg (trimPrefix slash) p.eq
    rwa [trimPrefix_eq_self h (slash_notMem_of_blank p.blank_left), ← p.eq] at hv
  rw [invoked, htrim]

theorem trimSpace_eq_self_iff :
    Utf8.trimSpace v = v ↔ p.left = [] ∧ p.right = [] := by
  constructor
  · intro h
    have hlength := congrArg List.length (p.trimSpace_eq.symm.trans (h.trans p.eq))
    simp only [List.length_append, List.length_cons] at hlength
    rw [← List.length_eq_zero_iff, ← List.length_eq_zero_iff]
    omega
  · rintro ⟨hleft, hright⟩
    have hv := p.eq
    rw [hleft, hright, List.nil_append, List.append_nil] at hv
    exact p.trimSpace_eq.trans hv.symm

theorem spaceFree_lead : SpaceFree (p.lead ++ p.service) ↔ SpaceFree p.service := by
  rcases p.lead_eq with h | h
  · rw [h, List.nil_append]
  · rw [h, List.singleton_append, spaceFree_slash]

/-- The names agree, and the service is one that may be called. -/
theorem names_iff (p : Parts v) :
    (SpaceFree (invoked v).1 ∧ ¬ [slash] <+: (invoked v).1 ∧
        (invoked v).1 ++ dot :: (invoked v).2 = symbolName v) ↔
      Utf8.trimSpace v = v ∧ SpaceFree (parseSymbol v).1 := by
  rw [p.trimSpace_eq_self_iff, p.parseSymbol_eq]
  by_cases hleft : p.left = []
  · -- the service is the one looked up, and the method if nothing follows it
    have hslash : ¬ [slash] <+: p.service := by
      intro h
      exact p.slash_notMem_service (h.subset List.mem_cons_self)
    have hright : p.service ++ dot :: (p.method ++ p.right) =
        p.service ++ dot :: p.method ↔ p.right = [] := by
      simp
    rw [p.invoked_eq hleft, p.symbolName_eq, hright, hleft, List.nil_append,
      p.spaceFree_lead]
    simp only [hslash, not_false_eq_true, true_and]
    exact And.comm
  · -- white space in front is kept, and becomes part of the service
    have hspace := not_spaceFree_of_blank p.blank_left hleft (p.lead ++ p.service)
    rw [p.invoked_eq_parseSymbol hleft, p.parseSymbol_eq]
    simp only [hspace, hleft, false_and, and_false]

end Parts

/-! ## What is done to the connection -/

variable {Conn Message Parser : Type} {g : Grpcurl Conn Message Parser}
  {i : Invoker Conn} {upstream : String} {v json : Bytes}

/-- The source knows a unary method under the symbol. -/
def Unary (g : Grpcurl Conn Message Parser) (source : Conn) (symbol : Bytes) : Prop :=
  ∃ inputType, g.findSymbol source symbol = .ok (.method false false inputType)

theorem unaryMethod_ok {source : Conn} {inputType : Message}
    (h : unaryMethod g source v = .ok inputType) : Unary g source (symbolName v) := by
  rw [unaryMethod] at h
  split at h
  · cases h
  · next inputType hfind => exact ⟨inputType, hfind⟩
  · cases h

theorem resolve_cases (g : Grpcurl Conn Message Parser) (i : Invoker Conn)
    (upstream : String) (v : Bytes) :
    (∃ effects err, i.resolve g upstream v = (effects, .error err) ∧
      (effects = [] ∨
        effects = [.newClientAuto, .findSymbol (symbolName v), .reset])) ∨
    ∃ connection, i.resolve g upstream v =
        ([.newClientAuto, .findSymbol (symbolName v)], .ok connection) ∧
      i.registry (trimSpace upstream) = some connection ∧
      Unary g connection (symbolName v) := by
  rw [Invoker.resolve]
  split
  · exact .inl ⟨_, _, rfl, .inl rfl⟩
  · next connection hreg =>
      split
      · exact .inl ⟨_, _, rfl, .inl rfl⟩
      · split
        · exact .inl ⟨_, _, rfl, .inr rfl⟩
        · next hunary => exact .inr ⟨connection, rfl, hreg, unaryMethod_ok hunary⟩

theorem invoke_cases (g : Grpcurl Conn Message Parser) (i : Invoker Conn)
    (upstream : String) (v json : Bytes) :
    (i.invoke g upstream v json).1 = [] ∨
    (i.invoke g upstream v json).1 =
      [.newClientAuto, .findSymbol (symbolName v), .reset] ∨
    (∃ connection, i.registry (trimSpace upstream) = some connection ∧
      Unary g connection (symbolName v)) ∧
      (i.invoke g upstream v json).1 =
        [.newClientAuto, .findSymbol (symbolName v),
          .invokeRPC (invoked v).1 (invoked v).2, .reset] := by
  rw [Invoker.invoke]
  rcases resolve_cases g i upstream v with
    ⟨effects, err, hresolve, heffects⟩ | ⟨connection, hresolve, hreg, hunary⟩
  · rw [hresolve]
    rcases heffects with rfl | rfl
    · exact .inl rfl
    · exact .inr (.inl rfl)
  · rw [hresolve]
    simp only []
    cases g.requestParser connection json with
    | error err => exact .inr (.inl rfl)
    | ok parser => exact .inr (.inr ⟨⟨connection, hreg, hunary⟩, rfl⟩)

theorem validate_cases (g : Grpcurl Conn Message Parser) (i : Invoker Conn)
    (upstream : String) (v json : Bytes) :
    ((i.validate g upstream v json).2 ≠ none ∧
      ((i.validate g upstream v json).1 = [] ∨
        (i.validate g upstream v json).1 =
          [.newClientAuto, .findSymbol (symbolName v), .reset])) ∨
    (∃ connection, i.registry (trimSpace upstream) = some connection ∧
      Unary g connection (symbolName v)) ∧
      (i.validate g upstream v json).1 =
        [.newClientAuto, .findSymbol (symbolName v), .findSymbol (symbolName v),
          .reset] := by
  rw [Invoker.validate]
  rcases resolve_cases g i upstream v with
    ⟨effects, err, hresolve, heffects⟩ | ⟨connection, hresolve, hreg, hunary⟩
  · rw [hresolve]
    exact .inl ⟨Option.some_ne_none err, heffects⟩
  · rw [hresolve]
    simp only []
    cases g.requestParser connection json with
    | error err => exact .inl ⟨Option.some_ne_none _, .inr rfl⟩
    | ok parser =>
        refine .inr ⟨⟨connection, hreg, hunary⟩, ?_⟩
        simp only []
        split <;> rfl

/-- A reflection client is reset once, after everything that is done with it. -/
def Reset (effects : List Effect) : Prop :=
  effects = [] ∨ ∃ during, effects = .newClientAuto :: during ++ [.reset] ∧
    .newClientAuto ∉ during ∧ .reset ∉ during

theorem reset_invoke (g : Grpcurl Conn Message Parser) (i : Invoker Conn)
    (upstream : String) (v json : Bytes) : Reset (i.invoke g upstream v json).1 := by
  rcases invoke_cases g i upstream v json with h | h | ⟨_, h⟩
  · exact .inl h
  · exact .inr ⟨[.findSymbol (symbolName v)], h, by simp, by simp⟩
  · exact .inr ⟨[.findSymbol (symbolName v), .invokeRPC _ _], h, by simp, by simp⟩

theorem reset_validate (g : Grpcurl Conn Message Parser) (i : Invoker Conn)
    (upstream : String) (v json : Bytes) :
    Reset (i.validate g upstream v json).1 := by
  rcases validate_cases g i upstream v json with ⟨_, h | h⟩ | ⟨_, h⟩
  · exact .inl h
  · exact .inr ⟨[.findSymbol (symbolName v)], h, by simp, by simp⟩
  · exact .inr ⟨[.findSymbol (symbolName v), .findSymbol (symbolName v)], h, by simp,
      by simp⟩

/-- What is called and what was looked up before. -/
theorem invoke_calls {service method : Bytes}
    (h : .invokeRPC service method ∈ (i.invoke g upstream v json).1) :
    invoked v = (service, method) ∧ ∃ connection,
      i.registry (trimSpace upstream) = some connection ∧
        Unary g connection (symbolName v) := by
  rcases invoke_cases g i upstream v json with heffects | heffects | ⟨hfound, heffects⟩
  · rw [heffects] at h
    cases h
  · rw [heffects] at h
    simp at h
  · rw [heffects] at h
    simp only [List.mem_cons, Effect.invokeRPC.injEq, reduceCtorEq, List.not_mem_nil,
      or_false, false_or] at h
    exact ⟨Prod.ext h.1.symm h.2.symm, hfound⟩

theorem validate_approves (h : (i.validate g upstream v json).2 = none) :
    ∃ connection, i.registry (trimSpace upstream) = some connection ∧
      Unary g connection (symbolName v) := by
  rcases validate_cases g i upstream v json with ⟨herr, _⟩ | ⟨hfound, _⟩
  · exact absurd h herr
  · exact hfound

/-! ## The same method -/

/-- The check and the call are about one method. -/
structure SameMethod (v : Bytes) : Prop where
  spaceFree : SpaceFree (invoked v).1
  noSlash : ¬ [slash] <+: (invoked v).1
  symbol : (invoked v).1 ++ dot :: (invoked v).2 = symbolName v
  /-- What is called was found to be unary before. -/
  checked : ∀ {Conn Message Parser : Type} (g : Grpcurl Conn Message Parser)
    (i : Invoker Conn) (upstream : String) (json service method : Bytes),
    .invokeRPC service method ∈ (i.invoke g upstream v json).1 →
      ∃ connection, i.registry (trimSpace upstream) = some connection ∧
        Unary g connection (service ++ dot :: method)
  /-- What `Validate` approves is what would be called. -/
  approved : ∀ {Conn Message Parser : Type} (g : Grpcurl Conn Message Parser)
    (i : Invoker Conn) (upstream : String) (json : Bytes),
    (i.validate g upstream v json).2 = none →
      ∃ connection, i.registry (trimSpace upstream) = some connection ∧
        Unary g connection ((invoked v).1 ++ dot :: (invoked v).2)

theorem sameMethod_of_symbol (hfree : SpaceFree (invoked v).1)
    (hslash : ¬ [slash] <+: (invoked v).1)
    (hsymbol : (invoked v).1 ++ dot :: (invoked v).2 = symbolName v) :
    SameMethod v where
  spaceFree := hfree
  noSlash := hslash
  symbol := hsymbol
  checked g i upstream json service method h := by
    obtain ⟨hcall, hfound⟩ := invoke_calls h
    rw [hcall] at hsymbol
    rwa [hsymbol]
  approved g i upstream json h := by
    rw [hsymbol]
    exact validate_approves h

/-- The check and the call are about one method exactly when the name has no
white space at its ends and none before its last slash. -/
theorem sameMethod_iff (h : validFullMethod v = true) :
    SameMethod v ↔ Utf8.trimSpace v = v ∧ SpaceFree (parseSymbol v).1 := by
  obtain ⟨p⟩ := nonempty_parts h
  rw [← p.names_iff]
  constructor
  · intro hsame
    exact ⟨hsame.spaceFree, hsame.noSlash, hsame.symbol⟩
  · rintro ⟨hfree, hslash, hsymbol⟩
    exact sameMethod_of_symbol hfree hslash hsymbol

theorem sameMethod_health : SameMethod (bytes "/grpc.health.v1.Health/Check") :=
  (sameMethod_iff (by decide +kernel)).mpr (by decide +kernel)

/-- A server with one unary method, and a request that is read as one
message. -/
def single : Grpcurl Unit Unit Nat where
  findSymbol _ symbol :=
    if symbol = bytes "a.B.C" then .ok (.method false false ())
    else .error (.new (bytes "symbol not found"))
  requestParser _ _ := .ok 1
  next parser _ := if parser = 0 then (some (.sentinel eof), 0) else (none, parser - 1)
  invokeRPC _ service method _ :=
    if service = bytes "a.B" ∧ method = bytes "C" then .ok ⟨none, 1, bytes "\x7b\x7d"⟩
    else .error (.new (bytes "target server does not expose service"))
  isPrint _ := true

/-- Of a name with a space in front, the method is found and approved, and a
service is called that has the space and the slash in its name. -/
theorem padded_method_differs :
    validFullMethod (bytes " /a.B/C") = true ∧
      ¬ SameMethod (bytes " /a.B/C") ∧
      invoked (bytes " /a.B/C") = (bytes " /a.B", bytes "C") ∧
      symbolName (bytes " /a.B/C") = bytes "a.B.C" ∧
      ((Invoker.mk fun _ => some ()).validate single "up" (bytes " /a.B/C")
        (bytes "\x7b\x7d")).2 = none ∧
      ((Invoker.mk fun _ => some ()).invoke single "up" (bytes " /a.B/C")
        (bytes "\x7b\x7d")).1 =
        [.newClientAuto, .findSymbol (bytes "a.B.C"),
          .invokeRPC (bytes " /a.B") (bytes "C"), .reset] := by
  refine ⟨by decide +kernel, fun h => ?_, by decide +kernel, by decide +kernel,
    by decide +kernel, by decide +kernel⟩
  exact absurd h.symbol (by decide +kernel)

end PlatformGo.DynamicGrpc

import PlatformGo.Lib.Filled
import PlatformGo.Ref.RoutePolicy

/-!
# When a policy lets a call through

`Evaluate` asks the authorizer about each permission of the policy, in
whatever order the map is iterated in, and returns at the first answer that is
neither nil nor a denial. So it gets to the program exactly when there is no
such answer at all, and the map it then hands over does not depend on the
order: that it lets the call through is a matter of the answers alone.
-/

namespace PlatformGo.RoutePolicy

open Authz Filled

variable {Ast Program : Type} {c : Compiler Ast Program}
  {p : Policy Program} {ctx : Auth.Context} {authorizer : Option Authorizer}
  {order : List (String × Permission)}

/-- The program reads the permissions as a map. -/
def Compiler.ReadsMap (c : Compiler Ast Program) : Prop :=
  ∀ (program : Program) (vars : Activation) (permissions : AList _),
    (∀ key, permissions.lookup key = vars.permissions.lookup key) →
    c.eval program { vars with permissions } = c.eval program vars

/-- The answer of the authorizer for a permission. -/
def answer (ctx : Auth.Context) (identity : Principal)
    (authorize : Authorizer) (permission : Permission) : Option GoErr :=
  authorize ctx identity
    { resource := permission.resource, action := permission.action
      scope := permission.scope }

/-- The answer decides: it is nil or a denial. -/
def Decided : Option GoErr → Prop
  | none => True
  | some err => err.is "authorization denied" = true

/-- What the map says of a permission: it was asked for and allowed. -/
def allowed (ctx : Auth.Context) (caller : Option Principal)
    (authorizer : Option Authorizer) (permission : Permission) : Bool :=
  match caller, authorizer with
  | some identity, some authorize =>
      (answer ctx identity authorize permission).isNone
  | _, _ => false

/-! ## The loop -/

theorem decisions_anonymous {isPrint : Char → Bool} {authorize : Authorizer}
    {made : AList fun _ : String => Bool} (authorizer : Option Authorizer) :
    decisions isPrint ctx none authorize order made =
      .ok (fill Prod.fst (fun e => allowed ctx none authorizer e.2) order
        made) := by
  induction order generalizing made with
  | nil => rfl
  | cons e order ih =>
      rw [decisions, fill_cons]
      exact ih

theorem decisions_ok_iff {isPrint : Char → Bool} {identity : Principal}
    {authorize : Authorizer} {made made' : AList fun _ : String => Bool} :
    decisions isPrint ctx (some identity) authorize order made = .ok made' ↔
      (∀ e ∈ order, Decided (answer ctx identity authorize e.2)) ∧
      fill Prod.fst
        (fun e => allowed ctx (some identity) (some authorize) e.2) order
        made = made' := by
  induction order generalizing made with
  | nil => simp [decisions]
  | cons e order ih =>
      obtain ⟨key, permission⟩ := e
      rw [List.forall_mem_cons, fill_cons]
      simp only [decisions]
      cases hanswer : answer ctx identity authorize permission with
      | none =>
          have hcall := hanswer
          rw [answer] at hcall
          rw [hcall]
          simp only [ih, Decided, true_and, allowed, hanswer,
            Option.isNone_none]
      | some err =>
          have hcall := hanswer
          rw [answer] at hcall
          rw [hcall]
          by_cases hdenied : err.is "authorization denied" = true
          · simp only [hdenied, if_true, ih, Decided, true_and, allowed,
              hanswer, Option.isNone_some]
          · simp only [hdenied, Bool.false_eq_true, if_false, Decided,
              reduceCtorEq, false_and]

/-! ## The map -/

/-- The order the map of permissions is iterated in. -/
def Definition.Iterates (d : Definition) (order : List (String × Permission)) :
    Prop :=
  order.Perm (d.permissions.entries.map fun e => (e.1, e.2))

theorem Definition.Iterates.mem {d : Definition} (h : d.Iterates order)
    {key : String} {permission : Permission} :
    (key, permission) ∈ order ↔
      d.permissions.lookup key = some permission := by
  rw [h.mem_iff, List.mem_map]
  constructor
  · rintro ⟨e, he, heq⟩
    cases heq
    exact AList.mem_lookup_iff.mpr he
  · intro hlookup
    exact ⟨⟨key, permission⟩, AList.mem_lookup_iff.mp hlookup, rfl⟩

theorem Definition.Iterates.nodup {d : Definition} (h : d.Iterates order) :
    (order.map Prod.fst).Nodup := by
  rw [(h.map Prod.fst).nodup_iff, List.map_map]
  exact d.permissions.nodupKeys

/-- The map holds for each permission of the policy what was decided. -/
theorem lookup_decided {d : Definition} (h : d.Iterates order)
    (verdict : Permission → Bool) (key : String) :
    (fill Prod.fst (fun e => verdict e.2) order
        (∅ : AList fun _ : String => Bool)).lookup key =
      (d.permissions.lookup key).map verdict := by
  cases hlookup : d.permissions.lookup key with
  | none =>
      rw [lookup_fill_other]
      · rfl
      · rintro ⟨key', permission⟩ he heq
        dsimp only at heq
        rw [heq, h.mem, hlookup] at he
        cases he
  | some permission =>
      exact lookup_fill_of_mem h.nodup (h.mem.mpr hlookup)

/-! ## Evaluating -/

/-- The caller `Evaluate` finds in the context. -/
def caller (ctx : Auth.Context) : Option Principal :=
  if (Principal.fromContext ctx).2 then some (Principal.fromContext ctx).1
  else none

/-- The variables the program is given. -/
def activation (ctx : Auth.Context)
    (permissions : AList fun _ : String => Bool) : Activation :=
  { anonymous := (caller ctx).isNone, authenticated := (caller ctx).isSome
    principalType := ((caller ctx).map Principal.type).getD "", permissions }

/-- What `Evaluate` makes of the program's answer. -/
def Compiler.verdict (c : Compiler Ast Program) (p : Policy Program)
    (vars : Activation) : Option GoErr :=
  match c.eval p.program vars with
  | .error err => some (.wrap "evaluate route policy" err)
  | .ok true => none
  | .ok false => some errDenied

theorem verdict_none_iff {vars : Activation} :
    c.verdict p vars = none ↔ c.eval p.program vars = .ok true := by
  unfold Compiler.verdict
  split <;> simp [*]

theorem evaluate_eq :
    c.evaluate p ctx authorizer order =
      if (caller ctx).isSome = true ∧
          p.definition.permissions.entries.length > 0 ∧
          authorizer.isNone = true then
        some errDecisionUnavailable
      else
        match decisions c.isPrint ctx (caller ctx)
            (authorizer.getD fun _ _ _ => none) order ∅ with
        | .error err => some err
        | .ok made => c.verdict p (activation ctx made) := by
  cases hauth : (Principal.fromContext ctx).2 with
  | false =>
      have hcaller : caller ctx = none := by simp [caller, hauth]
      simp only [Compiler.evaluate, activation, hauth, hcaller]
      rfl
  | true =>
      have hcaller : caller ctx = some (Principal.fromContext ctx).1 := by
        simp [caller, hauth]
      simp only [Compiler.evaluate, activation, hauth, hcaller, if_true,
        Option.isSome_some, Option.isNone_some, Option.map_some,
        Option.getD_some, Bool.not_true]
      rfl

/-- `Evaluate` lets the call through when it has decisions to hand over and
the program yields true on them. -/
theorem evaluate_none_iff :
    c.evaluate p ctx authorizer order = none ↔
      ¬ ((caller ctx).isSome = true ∧
        p.definition.permissions.entries.length > 0 ∧
        authorizer.isNone = true) ∧
      ∃ made, decisions c.isPrint ctx (caller ctx)
          (authorizer.getD fun _ _ _ => none) order ∅ = .ok made ∧
        c.eval p.program (activation ctx made) = .ok true := by
  rw [evaluate_eq]
  split
  · next hnil => simp [hnil]
  · next hnil =>
      simp only [hnil, not_false_eq_true, true_and]
      cases hmade : decisions c.isPrint ctx (caller ctx)
          (authorizer.getD fun _ _ _ => none) order ∅ with
      | error err => simp
      | ok made => simp [verdict_none_iff]

/-- Whether the authorizer has decided every permission, where there is a
caller to ask about. -/
def Answered (p : Policy Program) (ctx : Auth.Context)
    (authorizer : Option Authorizer) : Prop :=
  ∀ identity, caller ctx = some identity → ∀ key permission,
    p.definition.permissions.lookup key = some permission →
    ∃ authorize, authorizer = some authorize ∧
      Decided (answer ctx identity authorize permission)

theorem answered_iff {identity : Principal} (h : p.definition.Iterates order)
    (hcaller : caller ctx = some identity) :
    Answered p ctx authorizer ↔ ∀ e ∈ order, ∃ authorize,
      authorizer = some authorize ∧
      Decided (answer ctx identity authorize e.2) := by
  constructor
  · rintro hanswered ⟨key, permission⟩ he
    exact hanswered identity hcaller key permission (h.mem.mp he)
  · intro hall identity' hcaller' key permission hlookup
    rw [hcaller, Option.some.injEq] at hcaller'
    subst hcaller'
    exact hall (key, permission) (h.mem.mpr hlookup)

theorem Definition.Iterates.length {d : Definition} (h : d.Iterates order) :
    order.length = d.permissions.entries.length := by
  rw [List.Perm.length_eq h, List.length_map]

/-- The decisions `Evaluate` hands over, where it gets that far. -/
theorem handed_over_iff (h : p.definition.Iterates order)
    {made : AList fun _ : String => Bool} :
    (¬ ((caller ctx).isSome = true ∧
        p.definition.permissions.entries.length > 0 ∧
        authorizer.isNone = true) ∧
      decisions c.isPrint ctx (caller ctx)
        (authorizer.getD fun _ _ _ => none) order ∅ = .ok made) ↔
      Answered p ctx authorizer ∧
      fill Prod.fst (fun e => allowed ctx (caller ctx) authorizer e.2) order
        ∅ = made := by
  cases hcaller : caller ctx with
  | none =>
      rw [decisions_anonymous authorizer]
      simp [Answered, hcaller]
  | some identity =>
      rw [answered_iff h hcaller, ← h.length]
      cases authorizer with
      | some authorize => simp [decisions_ok_iff]
      | none =>
          -- a nil authorizer is of no use unless there is nothing to ask
          cases order with
          | nil => simp [decisions]
          | cons e order =>
              rw [List.forall_mem_cons]
              simp

/-- Which is the map of what was allowed, in whatever order it was made. -/
theorem evaluate_of_answers (hmap : c.ReadsMap)
    (h : p.definition.Iterates order) :
    c.evaluate p ctx authorizer order = none ↔
      Answered p ctx authorizer ∧
      ∃ made : AList fun _ : String => Bool,
        (∀ key, made.lookup key = (p.definition.permissions.lookup key).map
          (allowed ctx (caller ctx) authorizer)) ∧
        c.eval p.program (activation ctx made) = .ok true := by
  have hlookup := lookup_decided h (allowed ctx (caller ctx) authorizer)
  rw [evaluate_none_iff]
  constructor
  · rintro ⟨hnil, made, hmade, heval⟩
    obtain ⟨hanswered, rfl⟩ := (handed_over_iff h).mp ⟨hnil, hmade⟩
    exact ⟨hanswered, _, hlookup, heval⟩
  · rintro ⟨hanswered, made, hall, heval⟩
    obtain ⟨hnil, hmade⟩ :=
      (handed_over_iff (c := c) h).mpr ⟨hanswered, rfl⟩
    refine ⟨hnil, _, hmade, ?_⟩
    rw [← heval]
    refine hmap p.program (activation ctx made) _ ?_
    intro key
    rw [hlookup, activation, hall]

/-- Without a caller the authorizer is not asked. -/
theorem evaluate_anonymous (hcaller : caller ctx = none)
    (authorizer authorizer' : Option Authorizer) :
    c.evaluate p ctx authorizer' order =
      c.evaluate p ctx authorizer order := by
  rw [evaluate_eq, evaluate_eq, hcaller, decisions_anonymous none,
    decisions_anonymous none]
  simp

/-- `Evaluate` returns nil exactly when every answer it needs is nil or a
denial and the program yields true on the map of what was allowed. Without a
caller the authorizer plays no part and nothing is allowed; and the order in
which the permissions are gone through does not matter. -/
theorem evaluate_iff_answers (hmap : c.ReadsMap)
    (h : p.definition.Iterates order) :
    (c.evaluate p ctx authorizer order = none ↔
      Answered p ctx authorizer ∧
      ∃ made : AList fun _ : String => Bool,
        (∀ key, made.lookup key = (p.definition.permissions.lookup key).map
          (allowed ctx (caller ctx) authorizer)) ∧
        c.eval p.program (activation ctx made) = .ok true) ∧
    (caller ctx = none →
      (∀ permission, allowed ctx (caller ctx) authorizer permission = false) ∧
      ∀ authorizer', c.evaluate p ctx authorizer' order =
        c.evaluate p ctx authorizer order) ∧
    ∀ order', p.definition.Iterates order' →
      (c.evaluate p ctx authorizer order' = none ↔
        c.evaluate p ctx authorizer order = none) := by
  refine ⟨evaluate_of_answers hmap h, ?_, ?_⟩
  · intro hcaller
    refine ⟨?_, evaluate_anonymous hcaller authorizer⟩
    intro permission
    rw [hcaller]
    rfl
  · intro order' h'
    rw [evaluate_of_answers hmap h', evaluate_of_answers hmap h]

/-! ### A policy that refuses administrators -/

/-- CEL as far as one expression goes. -/
def readersOnly : Compiler Unit Unit where
  parse expression :=
    if expression =
        "permissions[\"orders:read\"] && !permissions[\"orders:admin\"]" then
      .ok ()
    else .error "Syntax error"
  returnsBool _ := true
  program _ := .ok ()
  eval _ vars :=
    match vars.permissions.lookup "orders:read",
        vars.permissions.lookup "orders:admin" with
    | some read, some admin => .ok (read && !admin)
    | _, _ => .error (.new (bytes "no such key"))
  isPrint _ := true

theorem readersOnly_readsMap : readersOnly.ReadsMap := by
  intro program vars permissions h
  simp only [readersOnly, h]

def readersPolicy : Policy Unit where
  definition :=
    { id := "policy-2", routeID := "orders"
      expression :=
        "permissions[\"orders:read\"] && !permissions[\"orders:admin\"]"
      permissions :=
        ((∅ : AList fun _ : String => Permission).insert "orders:admin"
          { resource := "orders", action := "admin" }).insert "orders:read"
          { resource := "orders", action := "read" } }
  program := ()

/-- Reading is allowed and everything else is denied. -/
def readersAuthorizer : Authorizer := fun _ _ requirement =>
  if requirement.action = "read" then none else some Authz.errDenied

def readersOrder : List (String × Permission) :=
  [("orders:admin", { resource := "orders", action := "admin" }),
   ("orders:read", { resource := "orders", action := "read" })]

/-- The policy is the compiled one; a reader is let through, in the order in
which the map lists its permissions and in the other. -/
theorem evaluate_iff_answers_reader :
    readersOnly.compile readersPolicy.definition = .ok readersPolicy ∧
    readersOnly.evaluate readersPolicy (some { id := "alice" })
      (some readersAuthorizer) readersOrder = none ∧
    readersOnly.evaluate readersPolicy (some { id := "alice" })
      (some readersAuthorizer) readersOrder.reverse = none := by
  have horder : readersPolicy.definition.Iterates readersOrder :=
    List.Perm.swap ..
  have hreverse : readersPolicy.definition.Iterates readersOrder.reverse :=
    List.Perm.refl _
  have hok : readersOnly.evaluate readersPolicy (some { id := "alice" })
      (some readersAuthorizer) readersOrder = none := rfl
  refine ⟨rfl, hok, ?_⟩
  exact ((evaluate_iff_answers readersOnly_readsMap horder).2.2 _
    hreverse).mpr hok

end PlatformGo.RoutePolicy

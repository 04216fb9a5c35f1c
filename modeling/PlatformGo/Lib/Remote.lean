import PlatformGo.Lib.GoText

/-!
# Calls of a server

A server executes a command at once and as a whole. The call that sent it may
still see an error: the command was never executed, or its reply was lost. A
command that has not been executed when its call gives up is not executed
later.
-/

namespace PlatformGo

/-- What befalls a call: nothing, or an error before or after its command
ran. -/
inductive Fault where
  | none
  | notExecuted (err : GoErr)
  | replyLost (err : GoErr)
  deriving DecidableEq, Repr

/-- The server after a command, and what the call is answered. -/
def Fault.run {σ α : Type} (fault : Fault) (command : σ → σ × α) (r : σ) :
    σ × Except GoErr α :=
  match fault with
  | .none => ((command r).1, .ok (command r).2)
  | .notExecuted e => (r, .error e)
  | .replyLost e => ((command r).1, .error e)

/-- An answer without an error is that of the command, and it was executed. -/
theorem Fault.run_ok {σ α : Type} {fault : Fault} {command : σ → σ × α}
    {r : σ} {a : α} (h : (fault.run command r).2 = .ok a) :
    (fault.run command r).1 = (command r).1 ∧ (command r).2 = a := by
  cases fault with
  | none =>
      cases h
      exact ⟨rfl, rfl⟩
  | notExecuted e => cases h
  | replyLost e => cases h

end PlatformGo

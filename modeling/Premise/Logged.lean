import Premise.Failure
import Premise.Log
/-!
Results with the log entries made on the way. The log remains when there is no result.
-/
namespace Premise

structure Logged (α : Type) where
  log : List LogEntry
  result : Except Failure α

namespace Logged

variable {α β : Type}

def bind (x : Logged α) (f : α → Logged β) : Logged β :=
  match x.result with
  | .error e => ⟨x.log, .error e⟩
  | .ok a => ⟨x.log ++ (f a).log, (f a).result⟩

instance : Monad Logged where
  pure a := ⟨[], .ok a⟩
  bind := Logged.bind

instance : LawfulMonad Logged :=
  LawfulMonad.mk' Logged
    (fun x => by obtain ⟨log, _ | _⟩ := x <;> simp [Functor.map, Logged.bind])
    (fun _ _ => by simp [Bind.bind, Logged.bind, Pure.pure])
    (fun x f g => by
      obtain ⟨log, _ | a⟩ := x
      · rfl
      · simp only [Bind.bind, Logged.bind]
        cases (f a).result <;> simp)

def note (speaker : Speaker) (severity : Severity) (message : String) : Logged Unit :=
  ⟨[⟨severity, speaker, message⟩], .ok ()⟩

def fail (e : Failure) : Logged α :=
  ⟨[], .error e⟩

def ofExcept (r : Except Failure α) : Logged α :=
  ⟨[], r⟩

/-- The same result behind more log entries. -/
def after (log : List LogEntry) (x : Logged α) : Logged α :=
  ⟨log ++ x.log, x.result⟩

end Logged

end Premise

/-!
# Messages

Reading a workspace never stops at a file that cannot be read; it says so in a message and goes
on.  `Logged` is a value together with the messages that were given on the way to it.
-/

namespace GradleWorkspace

/-- How important a message is. -/
inductive Level
  | debug
  | info
  | warning
  | error
  deriving DecidableEq, Repr

/-- The rank of a level; more important levels have a greater one. -/
def Level.rank : Level → Nat
  | debug => 0
  | info => 1
  | warning => 2
  | error => 3

/-- The name of a level. -/
def Level.name : Level → String
  | debug => "DEBUG"
  | info => "INFO"
  | warning => "WARNING"
  | error => "ERROR"

/-- A message with its level. -/
structure Message where
  level : Level
  text : String
  deriving DecidableEq, Repr

/-- The messages that are at least as important as a level. -/
def messagesFrom (level : Level) (messages : List Message) : List Message :=
  messages.filter fun m => level.rank ≤ m.level.rank

/-- A value, and the messages given on the way to it. -/
structure Logged (α : Type) where
  value : α
  messages : List Message := []
  deriving Repr

namespace Logged

variable {α β : Type}

/-- A value without messages. -/
def pure (value : α) : Logged α := { value }

/-- A value found from another, with the messages of both. -/
def bind (first : Logged α) (next : α → Logged β) : Logged β :=
  let second := next first.value
  { value := second.value, messages := first.messages ++ second.messages }

instance : Monad Logged where
  pure := Logged.pure
  bind := Logged.bind

@[simp] theorem value_pure (a : α) : (Pure.pure a : Logged α).value = a := rfl

@[simp] theorem messages_pure (a : α) : (Pure.pure a : Logged α).messages = [] := rfl

@[simp] theorem value_bind (first : Logged α) (next : α → Logged β) :
    (first >>= next).value = (next first.value).value := rfl

@[simp] theorem messages_bind (first : Logged α) (next : α → Logged β) :
    (first >>= next).messages = first.messages ++ (next first.value).messages := rfl

/-- A message alone. -/
def say (level : Level) (text : String) : Logged Unit :=
  { value := (), messages := [⟨level, text⟩] }

/-- A message about what is being done. -/
def debug (text : String) : Logged Unit := say .debug text

/-- A message about something that was left out. -/
def warn (text : String) : Logged Unit := say .warning text

end Logged

end GradleWorkspace

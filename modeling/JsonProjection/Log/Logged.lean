/-
# `JsonProjection.Log.Logged` -- values together with the events of their computation.

A logged computation is plain data: the events in the order in which they happened, and the value.  What
a computation yields is `value`, what it reports is `events`, and each is a function of the other parts of
a `do` block in the obvious way (`value_bind`, `events_bind`).
-/
import JsonProjection.Log.Event

namespace JsonProjection.Log

/-- **A value and the events of its computation.** -/
structure Logged (α : Type) where
  events : List Event
  value : α

namespace Logged

variable {α β : Type}

instance : Monad Logged where
  pure a := ⟨[], a⟩
  bind m f := ⟨m.events ++ (f m.value).events, (f m.value).value⟩

/-- Reports an event. -/
def report (event : Event) : Logged Unit := ⟨[event], ()⟩

@[simp] theorem value_pure (a : α) : (pure a : Logged α).value = a := rfl

@[simp] theorem events_pure (a : α) : (pure a : Logged α).events = [] := rfl

@[simp] theorem value_bind (m : Logged α) (f : α → Logged β) :
    (m >>= f).value = (f m.value).value := rfl

@[simp] theorem events_bind (m : Logged α) (f : α → Logged β) :
    (m >>= f).events = m.events ++ (f m.value).events := rfl

@[simp] theorem value_report (event : Event) : (report event).value = () := rfl

@[simp] theorem events_report (event : Event) : (report event).events = [event] := rfl

end Logged

end JsonProjection.Log

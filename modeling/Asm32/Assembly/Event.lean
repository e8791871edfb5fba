import Asm32.Assembly.Error

/-!
# The log of an assembly run

A run reports what it does as a list of events.  `Logged` is a computation that
keeps the events up to the point where it ends, also when it ends in a failure,
so the image and the log of a run come from one definition.  `result_bind`
and `events_bind_of_ok` read the two apart.
-/

namespace Asm32

/-- One step of a run. -/
inductive Event where
  | labelDefined (label : String) (address line : Nat)
  /-- An instruction was encoded; a branch still lacks its displacement. -/
  | encoded (line address : Nat) (word : Word) (mnemonic : String)
  /-- A branch got its displacement. -/
  | patched (label : String) (address target : Nat) (offset : Int64)
  /-- All branches are patched; the counts are of words, labels and branches. -/
  | assembled (isa : String) (words labels branches : Nat)
deriving DecidableEq, Repr

/-- A result together with the events on the way to it. -/
structure Logged (α : Type) where
  events : List Event
  result : Except AssemblyError α

namespace Logged

/-- A result without events. -/
def ofExcept {α : Type} (result : Except AssemblyError α) : Logged α :=
  ⟨[], result⟩

/-- Report one event. -/
def emit (event : Event) : Logged Unit :=
  ⟨[event], .ok ()⟩

/-- Go on with the result of `x` unless it is a failure. -/
def bind {α β : Type} (x : Logged α) (f : α → Logged β) : Logged β :=
  match x.result with
  | .ok a => ⟨x.events ++ (f a).events, (f a).result⟩
  | .error e => ⟨x.events, .error e⟩

instance : Monad Logged where
  pure a := ⟨[], .ok a⟩
  bind := Logged.bind

@[simp] theorem result_pure {α : Type} (a : α) : (pure a : Logged α).result = .ok a := rfl

@[simp] theorem events_pure {α : Type} (a : α) : (pure a : Logged α).events = [] := rfl

/-- The results of a sequence of computations ignore their events. -/
@[simp] theorem result_bind {α β : Type} (x : Logged α) (f : α → Logged β) :
    (x >>= f).result = x.result.bind fun a => (f a).result := by
  change (Logged.bind x f).result = _
  unfold Logged.bind
  cases x.result <;> rfl

/-- The events of a sequence of computations that gets past its first part. -/
theorem events_bind_of_ok {α β : Type} {x : Logged α} {a : α} (h : x.result = .ok a)
    (f : α → Logged β) : (x >>= f).events = x.events ++ (f a).events := by
  change (Logged.bind x f).events = _
  unfold Logged.bind
  rw [h]

end Logged

end Asm32

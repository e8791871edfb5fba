import Asm32.Assembly.Event

/-!
# Labels and the references to them

`LabelTable` maps the names defined so far to addresses.  `fixup` takes
references in the order in which they were recorded, and writes the distance to
each label into the displacement field of the waiting word.
-/

namespace Asm32

/-- The labels defined so far with their addresses, latest first. -/
structure LabelTable where
  entries : List (String × Nat)
deriving DecidableEq, Repr

namespace LabelTable

/-- No label. -/
def empty : LabelTable := ⟨[]⟩

/-- The address of a label. -/
def get? (labels : LabelTable) (name : String) : Option Nat :=
  labels.entries.lookup name

/-- The number of labels. -/
def size (labels : LabelTable) : Nat :=
  labels.entries.length

/-- Whether there is no label. -/
def isEmpty (labels : LabelTable) : Bool :=
  labels.entries.isEmpty

/-- Define a label on a given line; a name is defined only once. -/
def define (labels : LabelTable) (name : String) (address line : Nat) :
    Except AssemblyError LabelTable :=
  match labels.get? name with
  | some _ => .error (.duplicateLabel line name)
  | none => .ok ⟨(name, address) :: labels.entries⟩

@[simp] theorem get?_empty (name : String) : empty.get? name = none := rfl

/-- A name can be defined exactly when the table does not have it. -/
theorem define_eq_ok_iff {labels next : LabelTable} {name : String} {address line : Nat} :
    labels.define name address line = .ok next ↔
      labels.get? name = none ∧ next = ⟨(name, address) :: labels.entries⟩ := by
  unfold define
  cases labels.get? name with
  | none => simp [eq_comm]
  | some _ => simp

/-- Defining a label changes the answer for its own name only. -/
theorem get?_of_define {labels next : LabelTable} {name : String} {address line : Nat}
    (hdefine : labels.define name address line = .ok next) (other : String) :
    next.get? other = if other = name then some address else labels.get? other := by
  obtain ⟨_, rfl⟩ := define_eq_ok_iff.1 hdefine
  by_cases hname : other = name
  · simp [get?, hname]
  · have hbeq : (other == name) = false := by simpa using hname
    simp [get?, List.lookup_cons, hname, hbeq]

end LabelTable

/-- The distance from the word behind a branch at `source` to `target`, in 64
bits. -/
def displacement (target source : Nat) : Int64 :=
  Int64.ofNat target - (Int64.ofNat source + 1)

/-- What patching a list of references leaves behind. -/
structure Fixup where
  /-- The words after the last reference that could be patched. -/
  words : List Word
  events : List Event
  outcome : Except AssemblyError Unit

/-- Patch references in order, up to the first that cannot be resolved.  A
label is looked up before the word is touched. -/
def fixup (disp : Field) (labels : LabelTable) : List Word → List Reference → Fixup
  | words, [] => ⟨words, [], .ok ()⟩
  | words, reference :: rest =>
      match labels.get? reference.label with
      | none => ⟨words, [], .error (.undefinedLabel reference.label)⟩
      | some target =>
          match words[reference.address]? with
          | none => ⟨words, [], .error (.referenceOutside reference.address)⟩
          | some word =>
              let offset := displacement target reference.address
              let after :=
                fixup disp labels
                  (words.set reference.address (disp.replace word (lowWord offset))) rest
              { after with
                events :=
                  .patched reference.label reference.address target offset :: after.events }

/-- Patching as a step of a run. -/
def Fixup.logged (f : Fixup) : Logged (List Word) :=
  ⟨f.events, f.outcome.map fun _ => f.words⟩

end Asm32

/-!
# Faults

Operations of the library fail with a `Fault`. It names the cause, not the place: a broken invariant,
a name that nothing defines, text that is no numeral, and so on.
-/

namespace Retarget

inductive Fault where
  /-- An invariant that the operation relies on does not hold. -/
  | broken (why : String)
  /-- A name or key is not in the table it is looked up in. -/
  | unknown (name : String)
  /-- A text or number is outside the set of well-formed values. -/
  | malformed (what : String)
  | pastEnd
  /-- A value is of a sort that the operation does not take. -/
  | wrongSort
  /-- A value lacks the part that the operation asks for. -/
  | missingPart
  | divByZero
  /-- A number does not fit the format it is converted to. -/
  | overflow
  /-- A number does not fit the field of the record it is stored in, or a record is cut short. -/
  | packing
  | undecodable
  /-- A file is not in the format that it is read in. -/
  | unreadable (why : String)
  | outOfMemory
  /-- An operation on a part asks for the whole again. -/
  | endless
  /-- A definition clashes with an earlier one or violates a typing rule. -/
  | rejected (why : String)
  /-- A line of program text, counted from zero, cannot be read. -/
  | badLine (line : Nat)
  /-- A program breaks a rule of its language at the given place. -/
  | illFormed (place : String)

abbrev Res := Except Fault
abbrev Texts := Res (List String)
abbrev broken {α : Type u} (why : String) : Res α := .error (.broken why)
abbrev unknown {α : Type u} (name : String) : Res α := .error (.unknown name)
abbrev illFormed {α : Type u} (place : String) : Res α := .error (.illFormed place)
def ensure (cond : Bool) (why : String) : Res Unit := if cond then .ok () else broken why

def orFault {α : Type} (fault : Fault) : Option α → Res α
  | some a => .ok a
  | none => .error fault

abbrev need {α : Type} (why : String) : Option α → Res α := orFault (.broken why)
abbrev defined {α : Type} (name : String) : Option α → Res α := orFault (.unknown name)

/-- Pieces of text written so far, newest first; they are kept when something fails. -/
abbrev Report := EStateM Fault (List String)

instance {σ : Type} : MonadLift Res (EStateM Fault σ) where
  monadLift
    | .ok a => pure a
    | .error e => throw e

namespace Report

def say (s : String) : Report PUnit := modify (s :: ·)

def pieces (r : Report PUnit) : List String × Option Fault :=
  match r.run [] with
  | .ok _ s => (s.reverse, none)
  | .error e s => (s.reverse, some e)

end Report
end Retarget

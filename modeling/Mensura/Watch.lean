/-!
# Watching a file

A watched file is looked at again and again.  Only a modification time other than the last one
seen counts as a change; while the file is missing nothing is seen, so a file that comes back as
it was has not changed.
-/

set_option autoImplicit false

namespace Mensura
namespace Watch

variable {τ : Type} [DecidableEq τ]

/-- What one look at the file shows. -/
inductive Sight
  | missing | unchanged | changed
  deriving DecidableEq, Repr

/-- One look: the modification time, if there is a file, against the last one seen. -/
def look (last : τ) : Option τ → Sight × τ
  | none => (.missing, last)
  | some t => if t = last then (.unchanged, last) else (.changed, t)

/-- The numbers of the looks, counted on from `index`, that show a change. -/
def changesFrom (index : Nat) (last : τ) : List (Option τ) → List Nat
  | [] => []
  | t :: rest =>
    match look last t with
    | (.changed, seen) => index :: changesFrom (index + 1) seen rest
    | (_, seen) => changesFrom (index + 1) seen rest

/-- The numbers of the looks, from one, that show a change of a file with an initial
modification time. -/
def changes (initial : τ) (looks : List (Option τ)) : List Nat :=
  changesFrom 1 initial looks

end Watch
end Mensura

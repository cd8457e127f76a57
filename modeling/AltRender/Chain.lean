import AltRender.Filter.Basic
import AltRender.Text.Quoted

/-!
# `Chain` — filters one after the other

A chain is the list of filters that an annotation asks for, in the order of the text. It is applied
by handing each filter the frame the one before it made; the first one that fails ends the chain. An
empty chain means that nothing was asked for.

What keeps two chains apart in the cache is the list of their signatures, and nothing else about
them: chains with the same signatures share their entries. A chain is applied from the left, so that
a chain of two parts is the second part after the first (`apply_append`).
-/

set_option autoImplicit false

namespace AltRender

/-- Filters in the order they are applied. -/
abbrev Chain := List Filter

namespace Chain

def signatures (c : Chain) : List String :=
  c.map Filter.signature

/-- **The frame after all filters,** or the fault of the first that fails. -/
def apply (c : Chain) (f : Frame) (theme : Option Theme) : Except FilterFault Frame :=
  c.foldlM (fun frame filter => filter.apply frame theme) f

/-- A chain in one line, as a log shows it. -/
def listing (c : Chain) : String :=
  Text.listedAll (signatures c)

@[simp] theorem apply_nil (f : Frame) (theme : Option Theme) : apply [] f theme = .ok f := rfl

theorem apply_cons (x : Filter) (c : Chain) (f : Frame) (theme : Option Theme) :
    apply (x :: c) f theme = (x.apply f theme).bind fun g => apply c g theme := rfl

/-- **A chain of two parts is the second part after the first.** -/
theorem apply_append (c d : Chain) (f : Frame) (theme : Option Theme) :
    apply (c ++ d) f theme = (apply c f theme).bind fun g => apply d g theme := by
  induction c generalizing f with
  | nil => rfl
  | cons x c ih =>
    rw [List.cons_append, apply_cons, apply_cons]
    cases x.apply f theme with
    | error e => rfl
    | ok g => exact ih g

end Chain

end AltRender

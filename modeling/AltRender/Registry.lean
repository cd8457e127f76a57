import AltRender.Chain
import AltRender.Directive.Annotation
import AltRender.Filter.Builtin
import AltRender.Text.Quoted

/-!
# `Registry` — filters by name

A registry knows how to make a filter from arguments, under a name of its own or under an alias of
such a name. Aliases are looked up first. They never chain: an alias stands for a registered name,
never for another alias. Names and aliases keep the order in which they were registered.

A name that is taken away takes its aliases with it, and a maker put under a name takes the alias of
that name away, so that no alias is left without its name. Of the requests of an annotation those
that no name or alias answers to are passed over, and the others make the chain.
-/

set_option autoImplicit false

namespace AltRender

/-- How a filter is made from the arguments of its directive. -/
abbrev Maker := Parameters → Filter

/-- Makers by name, and other names for them. -/
structure Registry where
  makers : Keyed String Maker
  aliases : Keyed String String

namespace Registry

def empty : Registry := ⟨Keyed.empty, Keyed.empty⟩

instance : Inhabited Registry := ⟨empty⟩

/-! ## Changing a registry -/

/-- A maker put under a name, in place of the one before it; the name is no longer an alias. -/
def register (r : Registry) (name : String) (maker : Maker) : Registry :=
  ⟨r.makers.insert name maker, r.aliases.erase name⟩

def isRegistered (r : Registry) (name : String) : Bool :=
  r.makers.contains name

/-- Another name for a registered one; whether there is such a one. -/
def addAlias (r : Registry) (other target : String) : Bool × Registry :=
  if r.isRegistered target then (true, { r with aliases := r.aliases.insert other target })
  else (false, r)

/-- A name and all its aliases taken away, or an alias; whether there was anything to take away. -/
def unregister (r : Registry) (name : String) : Bool × Registry :=
  if r.isRegistered name then
    (true, ⟨r.makers.erase name, r.aliases.retain fun e => e.2 ≠ name⟩)
  else (r.aliases.contains name, { r with aliases := r.aliases.erase name })

/-! ## Asking a registry -/

/-- The maker behind a name or an alias. -/
def maker? (r : Registry) (name : String) : Option Maker :=
  r.makers.get? ((r.aliases.get? name).getD name)

/-- Whether filters can be made under a name or an alias. -/
def contains (r : Registry) (name : String) : Bool :=
  (r.maker? name).isSome

/-- **The filter of a name or an alias** with the given arguments. -/
def create (r : Registry) (name : String) (parameters : Parameters) : Option Filter :=
  (r.maker? name).map fun maker => maker parameters

def names (r : Registry) : List String := r.makers.keys

def size (r : Registry) : Nat := r.makers.size

/-! ## The built-in filters -/

/-- How a built-in filter is made. -/
def builtinMaker (make : Parameters → Builtin) : Maker :=
  fun ps => (make ps).toFilter

/-- All built-in filters, and `dark` as another name for `darkmode`. -/
def builtin : Registry :=
  let filled := Builtin.makers.foldl (fun r m => r.register m.1 (builtinMaker m.2)) empty
  (filled.addAlias "dark" "darkmode").2

/-! ## Listing -/

/-- A registry in one line, as a log shows it: the names, and the aliases with what they stand
for. -/
def listing (r : Registry) : String :=
  let shown := r.aliases.entries.map fun e => Text.listed e.1 ++ ": " ++ Text.listed e.2
  "FilterRegistry \x7b filters: " ++ Text.listedAll r.names ++ ", aliases: \x7b" ++
    String.intercalate ", " shown ++ "\x7d \x7d"

/-! ## Annotations -/

/-- The chain of the requests whose names are known; the others are passed over. -/
def resolve (r : Registry) (specs : List Spec) : Chain :=
  specs.filterMap fun s => r.create s.name s.parameters

/-- **The chain that an annotation asks for.** -/
def chainOf (r : Registry) (text : String) : Chain :=
  r.resolve (Directive.specs text)

end Registry

end AltRender

import AltRender.Disk.Basic
import AltRender.Source

/-!
# `Vault` — reading sources

A source in the vault is read by its identity, a path relative to the root of the vault. Such a path
may not lead out of the vault: it has to be made of names, and of a `.` at its start at most. A path
that is absolute or goes up anywhere is refused before the disk is asked, even if it would lead back
in.

Where a source is looked up at all it is by joining the root and the identity, without any change to
either. What is asked of the disk on the way stands in `Vault/Access`, and that it never lies
outside of the root in `Proofs/Vault`.
-/

set_option autoImplicit false

namespace AltRender

open AltRender.Disk

/-- Why the bytes of a source could not be had. -/
inductive ReadFault where
  /-- The disk refuses. -/
  | io (path : Path) (cause : Fault)
  /-- A remote source did not answer. -/
  | network (url error : String)
  /-- The identity leads out of the vault. -/
  | outsideVault (identity : String)
  deriving DecidableEq, Repr

def ReadFault.message : ReadFault → String
  | .io path cause => s!"Failed to read {path.text}: {cause.message}"
  | .network url error => s!"Failed to fetch {url}: {error}"
  | .outsideVault identity => s!"'{identity}' is not inside the vault"

namespace Vault

/-- Whether a component of a path stays where it is or goes down. -/
def isInner : Component → Bool
  | .name _ => true
  | .here => true
  | _ => false

/-- Whether a path cannot lead out of the directory it starts from. -/
def isConfined (p : Path) : Bool :=
  p.components.all isInner

/-- **The bytes of the source with an identity.** -/
def read (root : Path) (d : Disk) (identity : String) : Except ReadFault (List UInt8) :=
  if isConfined ⟨identity⟩ then
    let p := root.join ⟨identity⟩
    (d.read p).mapError (ReadFault.io p)
  else .error (.outsideVault identity)

/-- The source at a path in the vault, as it is now. -/
def describe (root : Path) (d : Disk) (relative : Path) : Except Fault Source :=
  (d.look (root.join relative)).map fun item => Source.atPath relative item.changed

/-- The source at a location: a URL, or a path in the vault. -/
def locate (root : Path) (d : Disk) (location : String) : Except Fault Source :=
  if Source.isRemoteLocation location then .ok (Source.remote location)
    else describe root d ⟨location⟩

end Vault

end AltRender

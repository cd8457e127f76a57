import AltRender.Vault

/-!
# `Vault/Access` — what is asked for to read a source

A source is read by asking for a file or by asking the network, and for some sources neither is
done. The reader stands here over whoever answers: a disk answers at once, and a recorder answers
and writes down what it was asked, so that one can say which files were touched and not only what
came out.

The recorder puts each question behind the earlier ones, so their order is that of the asking, and
what comes out is what the reader makes of the answers.
-/

set_option autoImplicit false

namespace AltRender.Vault

open AltRender.Disk

/-- What can be asked for. -/
inductive Access where
  | file (path : Path)
  | network (url : String)
  deriving DecidableEq, Repr

/-- **The bytes of a source,** from a file in the vault or from the network. -/
def fetch {m : Type → Type} [Monad m] (readFile : Path → m (Except Fault (List UInt8)))
    (request : String → m (Except ReadFault (List UInt8))) (root : Path) (s : Source) :
    m (Except ReadFault (List UInt8)) :=
  if s.isRemote then request s.identity
  else if isConfined ⟨s.identity⟩ then do
    let p := root.join ⟨s.identity⟩
    return (← readFile p).mapError (ReadFault.io p)
  else return .error (.outsideVault s.identity)

/-- An answer, and the question written down behind the earlier ones. -/
def answering {α : Type} (access : Access) (answer : α) : StateM (List Access) α := do
  modify (· ++ [access])
  return answer

/-- What comes out on a disk and a network, and what was asked for on the way. -/
def fetchRecorded (root : Path) (d : Disk) (network : String → Except ReadFault (List UInt8))
    (s : Source) : Except ReadFault (List UInt8) × List Access :=
  (fetch (fun p => answering (.file p) (d.read p))
    (fun url => answering (.network url) (network url)) root s).run []

end AltRender.Vault

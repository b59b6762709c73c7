import Continuum.Archive.Ledger
import Continuum.Library.Programs

/-!
# The files of a root and of its proof archive

Paths to files under the root and in the external archive, the relocation ledger, the two binding
documents, and the file-system operations that archiving and restoring make of them. Whatever an
operation leaves to its surroundings is its choice: fresh identities and names, the time, what the
catalog refers to, and whether the operation fails, before or after it took effect.
-/
namespace Continuum.Archive

open Library

structure Identity where
  device : ℕ
  inode : ℕ
  mtimeNs : ℕ
  ctimeNs : ℕ
  deriving DecidableEq, Repr

structure File where
  bytes : List UInt8
  identity : Identity
  deriving DecidableEq

inductive Place where
  | root (path : Path)
  | archive (path : Path)
  deriving DecidableEq

/-- `archive.manifest.json`: when it was made and the root it binds. -/
structure Manifest (H : Type) where
  createdAt : Chars
  rootBinding : H
  deriving DecidableEq

/-- `config/proof-archive.json`. -/
structure Locator (H : Type) where
  createdAt : Chars
  rootBinding : H
  archiveRoot : Chars
  archiveManifestSha256 : H
  deriving DecidableEq

structure State (H : Type) where
  files : Place → Option File
  directories : Place → Bool
  ledger : List (Record H)
  manifest : Option (Manifest H)
  locator : Option (Locator H)

/-- A catalog or proof reference to a proof artifact. -/
structure Reference (H : Type) where
  id : Chars
  kind : Chars
  sha256 : H
  sizeBytes : ℤ

structure Stat where
  identity : Identity
  size : ℕ
  deriving DecidableEq

/-- `EEXIST`, the codes of `os.link` on file systems without hard links, and any other code. -/
inductive Errno where
  | fileExists
  | linkUnavailable
  | failed
  deriving DecidableEq

inductive Op (H : Type) where
  | now
  | uuid4
  | iterdir
  | references (uri : Chars)
  | lstat (place : Place)
  | read (place : Place)
  | create (place : Place)
  | write (place : Place) (bytes : List UInt8)
  | link (source destination : Place)
  | replace (source destination : Place)
  | rename (source destination : Place)
  | unlink (place : Place)
  | mkdir (place : Place)
  | rmdir (place entry : Place)
  | delete (place : Place) (handle : Identity)
  | flush
  | readLedger
  | appendLedger (record : Record H)
  | archiveEntries
  | readManifest
  | writeManifest (manifest : Manifest H)
  | readLocator
  | writeLocator (locator : Locator H)

/-- The value of an operation that does not fail. -/
@[reducible] def Value (H : Type) : Op H → Type
  | .now => {text : Chars // text ≠ []}
  | .uuid4 => Chars
  | .iterdir => List Chars
  | .references _ => List (Reference H)
  | .lstat _ => Option Stat
  | .read _ => File
  | .readLedger => List (Record H)
  | .archiveEntries => Bool
  | .readManifest => Option (Manifest H)
  | .readLocator => Option (Locator H)
  | _ => Unit

@[reducible] def Reply (H : Type) (op : Op H) : Type := Except Errno (Value H op)

structure Choice (H : Type) where
  fault : Option Errno
  late : Option Errno
  identity : Identity
  now : {text : Chars // text ≠ []}
  hex : Chars
  names : List Chars
  references : Chars → List (Reference H)
  unbound : Bool

variable {H : Type}

def stat (file : File) : Stat := ⟨file.identity, file.bytes.length⟩

/-- The same file object, whatever its times. -/
def SameObject (a b : Identity) : Prop := a.device = b.device ∧ a.inode = b.inode

instance (a b : Identity) : Decidable (SameObject a b) := inferInstanceAs (Decidable (_ ∧ _))

def State.put (s : State H) (place : Place) (file : Option File) : State H :=
  { s with files := Function.update s.files place file }

/-- What an operation that is not interrupted answers and does. -/
def act (choice : Choice H) (s : State H) : (op : Op H) → Except Errno (Value H op) × State H
  | .now => (.ok choice.now, s)
  | .uuid4 => (.ok choice.hex, s)
  | .iterdir => (.ok choice.names, s)
  | .references uri => (.ok (choice.references uri), s)
  | .lstat place => (.ok ((s.files place).map stat), s)
  | .read place =>
    match s.files place with
    | some file => (.ok file, s)
    | none => (.error .failed, s)
  | .create place =>
    match s.files place with
    | some _ => (.error .fileExists, s)
    | none => (.ok (), s.put place (some ⟨[], choice.identity⟩))
  | .write place bytes =>
    match s.files place with
    | some file =>
      (.ok (), s.put place (some ⟨file.bytes ++ bytes, { choice.identity with
        device := file.identity.device, inode := file.identity.inode }⟩))
    | none => (.error .failed, s)
  | .link source destination =>
    match s.files source, s.files destination with
    | some file, none => (.ok (), s.put destination (some file))
    | some _, some _ => (.error .fileExists, s)
    | none, _ => (.error .failed, s)
  | .replace source destination =>
    match s.files source with
    | some file => (.ok (), (s.put source none).put destination (some file))
    | none => (.error .failed, s)
  | .rename source destination =>
    match s.files source, s.files destination with
    | some file, none => (.ok (), (s.put source none).put destination (some file))
    | some _, some _ => (.error .fileExists, s)
    | none, _ => (.error .failed, s)
  | .unlink place => (.ok (), s.put place none)
  | .mkdir place =>
    if s.directories place then (.error .fileExists, s)
    else (.ok (), { s with directories := Function.update s.directories place true })
  | .rmdir place entry =>
    match s.files entry with
    | some _ => (.error .failed, s)
    | none => (.ok (), { s with directories := Function.update s.directories place false })
  | .delete place handle =>
    match s.files place with
    | some file => (.ok (), if SameObject file.identity handle then s.put place none else s)
    | none => (.ok (), s)
  | .flush => (.ok (), s)
  | .readLedger => (.ok s.ledger, s)
  | .appendLedger record => (.ok (), { s with ledger := s.ledger ++ [record] })
  | .archiveEntries => (.ok choice.unbound, s)
  | .readManifest => (.ok s.manifest, s)
  | .writeManifest manifest => (.ok (), { s with manifest := some manifest })
  | .readLocator => (.ok s.locator, s)
  | .writeLocator locator => (.ok (), { s with locator := some locator })

/-- An operation may fail with nothing done, or be done and still report a failure. -/
def perform (choice : Choice H) (s : State H) (op : Op H) : Reply H op × State H :=
  match choice.fault, choice.late with
  | some errno, _ => (.error errno, s)
  | none, some errno => (.error errno, (act choice s op).2)
  | none, none => act choice s op

def machine (H : Type) : Machine (Op H) (Reply H) (State H) (Choice H) := ⟨perform⟩

/-- Whatever an operation reports, it was done or it was not. -/
theorem perform_state (choice : Choice H) (s : State H) (op : Op H) :
    (perform choice s op).2 = s ∨ (perform choice s op).2 = (act choice s op).2 := by
  unfold perform
  split
  · exact .inl rfl
  · exact .inr rfl
  · exact .inr rfl

/-- An operation that reports no failure was done and answers what it found. -/
theorem perform_ok {choice : Choice H} {s : State H} {op : Op H} {value : Value H op}
    (ok : (perform choice s op).1 = .ok value) : perform choice s op = act choice s op := by
  unfold perform at *
  split at ok
  · cases ok
  · cases ok
  · simp only [*]

end Continuum.Archive

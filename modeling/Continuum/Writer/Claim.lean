import Continuum.Json
import Continuum.Knowledge.Codec
import Continuum.Library.TransitionSystem

/-!
# The claim of a writer

One marker file names the runtime and the host that may write to a root, or the authority of a
recovery that has fenced it. Every process reads the marker before it writes, publishes one where
there is none, and never replaces one unless an operator says that all writers
have stopped. -/
namespace Continuum.Writer

open Library

/-! ### Identities -/

/-- The text of the root, case folding, the `repr` of a value, the complaints about a value that has
no hash and about a text that is no JSON, and what `fromisoformat` makes of a text: nothing, or
whether it has an offset. -/
structure ClaimHost where
  root : String
  casefold : String → String
  repr : Json → String
  unhashable : Json → String
  malformed : String
  timestamp : String → Option Bool

variable (host : ClaimHost)

/-- The identity under which a process writes. -/
structure Identity where
  runtime : String
  host : String
deriving DecidableEq, Repr

def supportedRuntimes : List String := ["windows", "wsl", "linux", "macos"]

/-- `_normalized_host`. -/
def normalizedHost (value : String) : String :=
  let name := host.casefold (strip value)
  if name = "" ∨ 255 < name.length ∨ name.toList.any (fun c => c.toNat < 32) then
    "unknown-host" else name

def Identity.normalized (identity : Identity) : Identity :=
  { identity with host := normalizedHost host identity.host }

/-- What a machine says about itself; the names of the host come in the order in which they are
asked for. -/
structure Machine where
  system : String
  release : String
  wslInterop : String
  wslDistroName : String
  names : List String

/-- `part in whole`. -/
def occursIn (part whole : String) :
    Bool := whole.toList.tails.any fun rest => part.toList.isPrefixOf rest

/-- `detect_runtime_identity`. -/
def detectRuntimeIdentity (machine : Machine) : Identity :=
  let system := host.casefold (strip machine.system)
  let release := host.casefold machine.release
  let runtime :=
    if system = "windows" then "windows"
    else if system = "linux" ∧ (machine.wslInterop ≠ "" ∨ machine.wslDistroName ≠ "" ∨
        occursIn "microsoft" release ∨ occursIn "wsl" release) then "wsl"
    else if system = "linux" then "linux"
    else if system = "darwin" then "macos"
    else "unsupported"
  ⟨runtime, normalizedHost host ((machine.names.find? (· ≠ "")).getD "")⟩

/-! ### Claims -/

/-- A claim of the second schema has an authority. -/
structure Claim where
  runtime : String
  host : String
  claimedAt : String
  authorityId : Option String
deriving DecidableEq, Repr

def claimSchema : String := "epic_continuum.writer_claim.v1"
def authoritySchema : String := "epic_continuum.writer_claim.v2"

/-- Why a claim is not taken. A fatal refusal is no `WriterClaimError`: nothing catches it, and the
call ends. -/
structure Refusal where
  why : String
  fatal : Bool
deriving DecidableEq, Repr

/-- The text of a JSON value that is one and meets the check. -/
def textOf (value : Option Json) (accepts : String → Bool) (why : String) : Except Refusal String :=
  match value.bind Json.text? with
  | some text => if accepts text then .ok text else .error ⟨why, false⟩
  | none => .error ⟨why, false⟩

/-- The text of a JSON value that is in a set of texts; a list or an object has no hash and cannot
be looked for. -/
def memberOf (value : Option Json) (texts : List String) (why : String) : Except Refusal String :=
  match value with
  | some (.arr items) => .error ⟨host.unhashable (.arr items), true⟩
  | some (.obj fields) => .error ⟨host.unhashable (.obj fields), true⟩
  | _ => textOf value (fun text => text ∈ texts) why

/-- The members that a claim with an authority has, and no others. -/
def authorityKeys : List String := ["schema", "runtime", "host", "claimed_at", "authority_id"]

/-- The members of a JSON object. -/
def keysOf (payload : Json) : Except Refusal (List String) :=
  match payload.fields? with
  | some fields => .ok (fields.map Prod.fst)
  | none => .error ⟨"writer-claim marker must contain a JSON object", false⟩

/-- `_validate_claim`. -/
def validateClaim (payload : Json) : Except Refusal Claim := do
  let keys ← keysOf payload
  let shown name := host.repr ((payload.get? name).getD .null)
  let schema ← memberOf host (payload.get? "schema") [claimSchema, authoritySchema]
    ("unsupported writer-claim schema: " ++ shown "schema")
  let runtime ← memberOf host (payload.get? "runtime") supportedRuntimes
    ("invalid writer-claim runtime: " ++ shown "runtime")
  let name ← textOf (payload.get? "host") (fun text => normalizedHost host text = text)
    "writer-claim host must be a normalized non-empty hostname"
  let claimedAt ← textOf (payload.get? "claimed_at") (fun text => (host.timestamp text).isSome)
    "writer-claim claimed_at must be an ISO-8601 timestamp"
  if host.timestamp claimedAt ≠ some true then
    .error ⟨"writer-claim claimed_at must include a UTC offset", false⟩
  else if schema = claimSchema then .ok ⟨runtime, name, claimedAt, none⟩
  else if ¬ (keys.all (· ∈ authorityKeys) ∧ authorityKeys.all (· ∈ keys)) then
    .error ⟨"authority writer-claim marker must contain exactly schema, runtime, host, " ++
      "claimed_at, and authority_id", false⟩
  else
    let authorityId ← textOf (payload.get? "authority_id") Knowledge.isSha256
      "writer-claim authority_id must be exactly 64 lowercase hexadecimal characters"
    .ok ⟨runtime, name, claimedAt, some authorityId⟩

/-- What `claim_writer` publishes: a claim of the first schema. -/
def newClaim (identity : Identity) (now : String) : Json :=
  .obj [("claimed_at", .str now), ("host", .str identity.host), ("runtime", .str identity.runtime),
    ("schema", .str claimSchema)]

/-- `_identity_matches`. -/
def Claim.admits (claim : Claim) (identity : Identity) (authority : Option String) : Bool :=
  claim.runtime = identity.runtime && claim.host = identity.host &&
    (claim.authorityId.isNone || authority = claim.authorityId)

/-! ### The marker -/

/-- A file with its content; while it is being written, the content is no JSON text. -/
structure MarkerFile where
  inode : ℕ
  content : Option Json

/-- The marker, the next file that will be created, and how often a claim was replaced. -/
structure Disk where
  marker : Option MarkerFile
  nextInode : ℕ
  transfers : ℕ

/-- What befalls a step: the clock, what has a link in its way, why a file cannot be read or
written, and a file system without hard links. -/
structure Draw where
  now : String
  linked : Option String
  unreadable : Option String
  failed : Option String
  unlinkable : Bool

/-- One attempt of `_load_claim`. -/
def Disk.load (disk : Disk) (draw : Draw) : Except Refusal Claim :=
  match draw.unreadable, disk.marker.bind MarkerFile.content with
  | some why, _ => .error ⟨"unable to read writer-claim marker: " ++ why, false⟩
  | none, some content => validateClaim host content
  | none, none => .error ⟨"unable to read writer-claim marker: " ++ host.malformed, false⟩

/-! ### Processes -/

/-- The answer of `writer_claim_status`, as far as it is about the marker. -/
structure Status where
  ok : Bool
  claim : Option Claim
  compatible : Option Bool
deriving DecidableEq, Repr

inductive Phase where
  /-- `ensure_writer_claim` looks for the marker, and loads it. -/
  | looking
  | checking (attempt : ℕ)
  /-- `claim_writer` looks for the marker, loads it, and replaces it. -/
  | claiming
  | inspecting (claim : Json) (attempt : ℕ)
  | replacing (claim : Json)
  /-- `_create_claim_exclusive`, its way without links, and what follows when another was faster. -/
  | creating (claim : Json)
  | writing (claim : Json) (inode : ℕ)
  | rereading (attempt : ℕ)
  /-- The last `writer_claim_status`, and the end. -/
  | reporting (changed : Bool)
  | returned (status : Status) (changed : Bool)
  | raised (why : String)

/-- What follows a failed attempt of `_load_claim`: the next of three attempts, or what the caller
does. -/
def Refusal.retry (refusal : Refusal) (attempt : ℕ) (again : ℕ → Phase) (otherwise : Phase) :
    Phase :=
  if refusal.fatal then .raised refusal.why else if attempt < 2 then again (attempt + 1) else
    otherwise

/-- A call of `ensure_writer_claim` or `claim_writer`, with what the process is, the transfers
before it began, and what it finds around the root. `forced` is `force and
acknowledge_writers_stopped`. -/
structure Process where
  identity : Identity
  authority : Option String
  forced : Bool
  began : ℕ
  rootHasState : Bool
  windowsMount : Bool
  phase : Phase

/-- `writer_claim_status` once the marker was looked for. -/
def Disk.status (disk : Disk) (draw : Draw) (identity : Identity) (authority : Option String) :
    Except Refusal Status :=
  match disk.marker with
  | none => .ok ⟨true, none, none⟩
  | some _ =>
    match disk.load host draw with
    | .ok claim => .ok ⟨true, some claim, some (claim.admits identity authority)⟩
    | .error refusal => if refusal.fatal then .error refusal else .ok ⟨false, none, some false⟩

/-- A file that is being written gets its content; it may not be the marker any more. -/
def Disk.write (disk : Disk) (inode : ℕ) (content : Json) : Disk :=
  { disk with
      marker := disk.marker.map fun file => if file.inode = inode then ⟨inode, some content⟩ else
      file }

/-- A new file takes the place of the marker. -/
def Disk.publish (disk : Disk) (content : Option Json) : Disk :=
  { disk with marker := some ⟨disk.nextInode, content⟩, nextInode := disk.nextInode + 1 }

/-- `_claim_command`. -/
def claimCommand (force : Bool) : String :=
  "continuum writer-claim --root \"" ++ host.root ++ "\"" ++
    if force then " --force --acknowledge-writers-stopped" else ""

/-- Why `ensure_writer_claim` does not write under a claim of another. -/
def Claim.refusal (claim : Claim) (identity : Identity) (authority : Option String) : String :=
  if claim.authorityId.isSome ∧ authority ≠ claim.authorityId then
    "Continuum root is fenced by a recovery writer authority; this process does not hold the " ++
      "exact CONTINUUM_WRITER_AUTHORITY_ID capability. Use read-only commands until the guarded " ++
      "recovery releases it."
  else
    "Continuum root is write-claimed by " ++ claim.runtime ++ "@" ++ claim.host ++
      "; current writer is " ++
      identity.runtime ++ "@" ++ identity.host ++
        ". Use read-only commands here, or stop every writer and " ++
      "transfer ownership with `" ++ claimCommand host true ++ "`."

/-- One step of a call. -/
def Process.advance (process : Process) (disk : Disk) (draw : Draw) : Phase × Disk :=
  let identity := process.identity
  let current := identity.normalized host
  let unsupported := "unsupported writer runtime: " ++ host.repr (.str identity.runtime)
  let transfer :=
    "writer claim belongs to another runtime/host or is malformed; stop every Continuum writer " ++
    "first, " ++
    "then run `" ++ claimCommand host true ++ "`"
  match process.phase with
  | .looking =>
    match draw.linked with
    | some what =>
      (.raised ("writer-claim marker is unsafe or malformed: refusing unsafe writer-claim " ++
        what ++
        ". Stop every writer, then repair it with `" ++ claimCommand host true ++ "`."), disk)
    | none =>
      if disk.marker.isSome then (.checking 0, disk)
      else if identity.runtime ∉ supportedRuntimes then (.raised unsupported, disk)
      else if process.rootHasState then
        (.raised
          ("existing Continuum root has no writer claim; inspect it read-only, then explicitly " ++
          "claim it " ++
          "with `" ++ claimCommand host false ++ "`"), disk)
      else if identity.runtime = "wsl" ∧ process.windowsMount then
        (.raised
          ("WSL will not auto-claim a new Continuum root on /mnt/<drive>; choose one writer " ++
          "runtime, then " ++
          "explicitly claim it with `" ++ claimCommand host false ++ "`"), disk)
      else (.claiming, disk)
  | .checking attempt =>
    match disk.load host draw with
    | .ok claim =>
      if claim.admits identity process.authority then
        (.returned ⟨true, some claim, some true⟩ false, disk)
      else (.raised (claim.refusal host identity process.authority), disk)
    | .error refusal =>
      (refusal.retry attempt .checking (.raised ("writer-claim marker is unsafe or malformed: " ++
        refusal.why ++
        ". Stop every writer, then repair it with `" ++ claimCommand host true ++ "`.")), disk)
  | .claiming =>
    if identity.runtime ∉ supportedRuntimes then (.raised unsupported, disk)
    else
      match draw.linked with
      | some what => (.raised ("refusing unsafe writer-claim " ++ what), disk)
      | none =>
        let claim := newClaim current draw.now
        (if disk.marker.isSome then .inspecting claim 0 else .creating claim, disk)
  | .inspecting claim attempt =>
    match disk.load host draw with
    | .ok previous =>
      if previous.admits current process.authority then (.reporting false, disk)
      else (if process.forced then .replacing claim else .raised transfer, disk)
    | .error refusal =>
      (refusal.retry attempt (.inspecting claim) (if process.forced then .replacing claim else
        .raised transfer), disk)
  | .replacing claim =>
    match draw.linked, draw.failed with
    | some what, _ => (.raised ("refusing unsafe writer-claim " ++ what), disk)
    | none, some why => (.raised why, disk)
    | none, none =>
      (.reporting true, { disk.publish (some claim) with transfers := disk.transfers + 1 })
  | .creating claim =>
    match draw.failed with
    | some why => (.raised why, disk)
    | none =>
      if disk.marker.isSome then (.rereading 0, disk)
      else if draw.unlinkable then (.writing claim disk.nextInode, disk.publish none)
      else (.reporting true, disk.publish (some claim))
  | .writing claim inode =>
    match draw.failed with
    | some why => (.raised why, disk)
    | none => (.reporting true, disk.write inode claim)
  | .rereading attempt =>
    match disk.load host draw with
    | .ok existing =>
      if existing.admits current process.authority then (.reporting false, disk)
      else
        (.raised
          ("another runtime/host claimed this Continuum root concurrently; inspect with " ++
          "`continuum writer-status --root \"" ++ host.root ++ "\"`"), disk)
    | .error refusal => (refusal.retry attempt .rereading (.raised refusal.why), disk)
  | .reporting changed =>
    match disk.status host draw current process.authority with
    | .ok status => (.returned status changed, disk)
    | .error refusal => (.raised refusal.why, disk)
  | phase => (phase, disk)

/-! ### Runs -/

structure World where
  disk : Disk
  processes : List Process

/-- A process begins a call, or takes a step of it. A process that is killed takes no more steps. -/
inductive Event where
  | ensure (identity : Identity) (authority : Option String) (rootHasState windowsMount : Bool)
  | claim (identity : Identity) (authority : Option String) (forced : Bool)
  | advance (index : ℕ) (draw : Draw)

def World.begin (world : World) (process : Process) : World :=
  { world with processes := world.processes ++ [{ process with began := world.disk.transfers }] }

def World.next (world : World) : Event → World
  | .ensure identity authority rootHasState windowsMount =>
    world.begin ⟨identity, authority, false, 0, rootHasState, windowsMount, .looking⟩
  | .claim identity authority forced =>
    world.begin ⟨identity, authority, forced, 0, false, false, .claiming⟩
  | .advance index draw =>
    match world.processes[index]? with
    | none => world
    | some process =>
      let stepped := process.advance host world.disk draw
      ⟨stepped.2, world.processes.set index { process with phase := stepped.1 }⟩

/-- A root with any marker, that no process has looked at. -/
def World.start (content : Option (Option Json)) : World :=
  ⟨⟨content.map fun content => ⟨0, content⟩, 1, 0⟩, []⟩

def writers : TransitionSystem World Event where
  init world := ∃ content, world = World.start content
  step world event world' := world' = world.next host event

end Continuum.Writer

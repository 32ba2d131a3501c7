import Horus.Capability.Basic
import Horus.Lib.Runs

/-
  Sessions: init (`init.c`) and the shell (`shell.c`).

  init serves the requests of the shell and the notice of its
  watcher one after the other, and every system call it makes
  for them is a step of its own, so that the shell can die in
  between. A capability keeps the numbers of the capabilities
  it was made from, and revoking one takes out whatever has
  its number.

  Some fields are not in the source: the last login of a shell
  and of an account, the sessions that were opened, those that
  are over, and what there was when a grant set was ended.
-/

namespace Horus.Session

open Function

/- What a session consists of. -/
inductive Kind where
  | root
  | cwd
  | user
  | klog
  | debug
deriving DecidableEq, Repr

/- What is lent to the administrator alone. -/
def Kind.admin : Kind → Bool
  | .root => false
  | .cwd => false
  | _ => true

/- The rights of the file system, `FS_R_*`. -/
def fsRights : Rights := 0xFF#32 <<< 10

/- `struct fs_session_grant`. -/
structure FsGrant where
  g : Nat
  rootToken : Nat
  rootRights : Rights
  cwdToken : Nat
  cwdRights : Rights
deriving DecidableEq, Repr

namespace FsGrant

variable (sg : FsGrant)

/- Without a working directory the session starts at its root. -/
def token : Kind → Nat
  | .cwd => if sg.cwdToken ≠ 0 then sg.cwdToken else sg.rootToken
  | _ => sg.rootToken

def rights : Kind → Rights
  | .cwd => if sg.cwdToken ≠ 0 then sg.cwdRights else sg.rootRights
  | _ => sg.rootRights

end FsGrant

/- A capability; `path` has its number, then its ancestors'. -/
structure SessCap where
  path : List Nat
  token : Nat
  rights : Rights
deriving DecidableEq, Repr

/- A shell by its launch, or a task of another program. -/
inductive Task where
  | shell (n : Nat)
  | other (k : Nat)
deriving DecidableEq, Repr

/- `given` marks what init itself granted. -/
structure TaskCap where
  owner : Task
  kind : Kind
  given : Bool
  cap : SessCap
deriving DecidableEq, Repr

/- The rights of what init mints a session from. -/
def sourceRights : Kind → Rights
  | .root | .cwd =>
    Right.read ||| Right.write ||| Right.mint ||| Right.grant ||| Right.revoke ||| fsRights
  | .user => Right.all
  | .klog | .debug => Right.read ||| Right.mint ||| Right.revoke

/- What the shell's copy is minted with. -/
def giveRights (asked : Rights) : Kind → Rights
  | .root | .cwd => Right.write ||| Right.grant ||| asked
  | .user => Right.all
  | .klog | .debug => Right.read

/- What init's own copy is minted with. -/
def keepRights (asked : Rights) (κ : Kind) : Rights :=
  match κ with
  | .root | .cwd =>
    (Right.write ||| Right.grant ||| Right.revoke ||| Right.mint ||| asked) &&& sourceRights κ &&&
      ~~~tokenStrippedRights
  | _ => (giveRights asked κ ||| Right.mint ||| Right.revoke) &&& sourceRights κ

inductive SessOp where
  | opens
  | ends
deriving DecidableEq, Repr

/- A message on the session endpoint. -/
inductive SessMsg where
  | request (n : Nat) (op : SessOp)
  | notice
deriving DecidableEq, Repr

/- What `session_close` was called for. -/
inductive After where
  | opening
  | ending
  | failed
  | died
deriving DecidableEq, Repr

/- The next call that init makes. -/
inductive Pc where
  | launch
  | listen
  | take (κ : Kind) (bad : Bool) (k : After)
  | endG (bad : Bool) (k : After)
  | sender
  | ask (uid : Nat)
  | mintRoot (uid : Nat) (sg : FsGrant)
  | mintCwd (uid : Nat) (sg : FsGrant)
  | mintLent (κ : Kind) (uid : Nat) (sg : FsGrant)
  | grant (κ : Kind) (uid : Nat) (sg : FsGrant)
  | lendKeep (κ : Kind)
  | lendMint (κ : Kind)
  | lendGrant (κ : Kind)
  | reply (rc : Int) (op : SessOp)
deriving DecidableEq, Repr

/- A session: its account, its shell, and its first copies. -/
structure SessInfo where
  uid : Nat
  shell : Nat
  sg : FsGrant
  ids : List Nat
deriving DecidableEq, Repr

/- What there was when `FS_OP_SESSION_END` was sent. -/
structure EndSent where
  g : Nat
  session : Option SessInfo
  kept : Kind → Option SessCap
  lent : Kind → Option SessCap
  caps : List TaskCap

structure SessState where
  pc : Pc
  sessOpen : Bool
  sessG : Nat
  sessAdmin : Bool
  kept : Kind → Option SessCap
  lent : Kind → Option SessCap
  msg : Option Nat
  shell : Nat
  alive : Bool
  uid : Nat
  intruder : Option Nat
  noticed : Bool
  queue : List SessMsg
  caps : List TaskCap
  next : Nat
  logged : Option Nat
  lastLogin : Nat → Option Nat
  sessions : List SessInfo
  past : List SessInfo
  ends : List EndSent

def sysErrPerm : Int := -1
def sysErrIo : Int := -5
def sysErrNomem : Int := -12

/- How many messages the endpoint holds. -/
def sessQueueSlots : Nat := 4

namespace SessState

variable (s : SessState)

/- A revocation takes out every descendant. -/
def sweep (id : Nat) : SessState :=
  { s with
    kept := fun κ => (s.kept κ).filter fun k => id ∉ k.path
    lent := fun κ => (s.lent κ).filter fun l => id ∉ l.path
    caps := s.caps.filter fun c => id ∉ c.cap.path }

/- `sys_cap_revoke` on a capability. -/
def revoke (c : Option SessCap) : Bool × SessState :=
  match c with
  | none => (false, s)
  | some c =>
  if c.rights &&& Right.revoke = 0 then (false, s)
  else
    match c.path with
    | [] => (false, s)
    | id :: _ => (true, s.sweep id)

/- What follows `session_close`. -/
def finish (bad : Bool) : After → SessState
  | .opening => { s with pc := .sender }
  | .ending => { s with pc := .reply (if bad then sysErrIo else 0) .ends }
  | .failed => { s with pc := .reply sysErrNomem .opens }
  | .died => { s with pc := .launch, past := s.sessions }

/- The rest of `session_close` after `admin_take_back`. -/
def closeFs (bad : Bool) (k : After) : SessState :=
  if s.sessOpen then { s with pc := .take .root bad k } else s.finish bad k

/- `session_close`, up to its first call. -/
def startClose (k : After) : SessState :=
  if s.sessAdmin then { s with pc := .take .user false k } else s.closeFs false k

/- A revocation of `admin_take_back` or `session_close`. -/
def takeBack (κ : Kind) (bad : Bool) (k : After) : SessState :=
  let r := s.revoke (s.kept κ)
  let bad := bad || !r.1
  match κ with
  | .user => { r.2 with pc := .take .klog bad k }
  | .klog => { r.2 with pc := .take .debug bad k }
  | .debug => { r.2 with sessAdmin := false }.closeFs bad k
  | .root => { r.2 with pc := .take .cwd bad k }
  | .cwd => { r.2 with pc := .endG bad k }

/- The end of `session_close`. -/
def endSession (bad : Bool) (k : After) : SessState :=
  { s with
    sessOpen := false
    sessG := 0
    ends :=
      { g := s.sessG
        session := s.sessions.head?
        kept := s.kept
        lent := s.lent
        caps := s.caps } :: s.ends }.finish bad k

/- init's own copy, made from what is never revoked. -/
def keep (κ : Kind) (token : Nat) (asked : Rights) : SessState :=
  { s with
    kept := update s.kept κ (some
          { path := [s.next], token := token, rights := keepRights asked κ })
    next := s.next + 1 }

/- The first copy of a session, with which it is open. -/
def openWith (uid : Nat) (sg : FsGrant) : SessState :=
  { s.keep .root (sg.token .root) (sg.rights .root) with
    sessOpen := true
    sessG := sg.g
    sessions := { uid := uid, shell := s.shell, sg := sg, ids := [s.next] } :: s.sessions
    past := s.sessions }

/- A further first copy of the session. -/
def keepMore (κ : Kind) (token : Nat) (asked : Rights) : SessState :=
  { s.keep κ token asked with
    sessions := match s.sessions with
      | [] => []
      | S :: rest => { S with ids := s.next :: S.ids } :: rest }

/- `sys_cap_mint` of the copy for the shell. -/
def mintFrom (κ : Kind) (asked : Rights) : Option SessState :=
  match s.kept κ with
  | none => none
  | some k =>
  if k.rights &&& Right.mint = 0 then none
  else
    some
      { s with
        lent := update s.lent κ (some
              { path := s.next :: k.path
                token := k.token
                rights := giveRights asked κ &&& k.rights })
        next := s.next + 1 }

/- The task in the slot of the shell. -/
def target : Option Task := if s.alive then some (.shell s.shell) else s.intruder.map .other

/- `sys_cap_grant` into the slot of the shell. -/
def grantTo (κ : Kind) : Option SessState :=
  match s.target, s.lent κ with
  | some t, some l =>
    some
      { s with
        caps :=
          { owner := t, kind := κ, given := true, cap := { l with path := s.next :: l.path } } ::
            s.caps.filter fun c => !(c.given && c.owner = t && c.kind = κ)
        next := s.next + 1 }
  | _, _ => none

/- A call that may fail for reasons of its own. -/
def orElse (ok : Bool) (r : Option SessState) (no : SessState) : SessState :=
  if ok then r.getD no else no

/-
  What follows the grant of a directory: the other one, then
  `admin_lend` when the account is uid 0.
-/
def granted (κ : Kind) (uid : Nat) (sg : FsGrant) : SessState :=
  match κ with
  | .root => { s with pc := .grant .cwd uid sg }
  | _ =>
  if uid = 0 then { s with sessAdmin := true, pc := .lendKeep .user }
  else { s with pc := .reply 0 .opens }

/- The next capability of `admin_lend`. -/
def lendNext (κ : Kind) : SessState :=
  match κ with
  | .user => { s with pc := .lendKeep .klog }
  | .klog => { s with pc := .lendKeep .debug }
  | _ => { s with pc := .reply 0 .opens }

/- A message is taken from the endpoint. -/
def receive : SessState :=
  match s.queue with
  | [] => s
  | .request n op :: rest =>
    { s with queue := rest, msg := some n }.startClose (match op with
        | .opens => .opening
        | .ends => .ending)
  | .notice :: rest => { s with queue := rest, msg := none }.startClose .died

/- `launch_shell`; a task has its spawner's uid, here 0. -/
def launchShell : SessState :=
  { s with
    pc := .listen
    shell := s.shell + 1
    alive := true
    uid := 0
    intruder := none
    noticed := false
    logged := none }

/- `sys_ipc_sender`: the sender must be alive. -/
def ipcSender : SessState :=
  if s.msg = some s.shell ∧ s.alive then { s with pc := .ask s.uid }
  else { s with pc := .reply sysErrPerm .opens }

/-
  One call of init. `ok` says whether a mint or grant works,
  `answer` is what `fs_server` says to `FS_OP_SESSION`. A grant
  set that no capability was minted for is ended at once.
-/
def initStep (ok : Bool) (answer : Except Int FsGrant) : SessState :=
  match s.pc with
  | .launch => s.launchShell
  | .listen => s.receive
  | .take κ bad k => s.takeBack κ bad k
  | .endG bad k => s.endSession bad k
  | .sender => s.ipcSender
  | .ask uid =>
    match answer with
    | .error rc => { s with pc := .reply rc .opens }
    | .ok sg =>
      if sg.rootToken = 0 then { s with pc := .reply 0 .opens }
      else { s with pc := .mintRoot uid sg }
  | .mintRoot uid sg =>
    if ok then { s.openWith uid sg with pc := .mintCwd uid sg }
    else { s with pc := .reply sysErrNomem .opens }
  | .mintCwd uid sg =>
    if ok then
      { s.keepMore .cwd (sg.token .cwd) (sg.rights .cwd) with pc := .mintLent .root uid sg }
    else s.startClose .failed
  | .mintLent κ uid sg =>
    orElse ok ((s.mintFrom κ (sg.rights κ)).map fun t =>
        { t with
          pc := match κ with
            | .root => .mintLent .cwd uid sg
            | _ => .grant .root uid sg })
      (s.startClose .failed)
  | .grant κ uid sg =>
    orElse ok ((s.grantTo κ).map fun t => t.granted κ uid sg) (s.startClose .failed)
  | .lendKeep κ => if ok then { s.keepMore κ 0 0 with pc := .lendMint κ } else s.lendNext κ
  | .lendMint κ =>
    orElse ok ((s.mintFrom κ 0).map fun t =>
        { t with pc := .lendGrant κ })
      (s.lendNext κ)
  | .lendGrant κ => orElse ok ((s.grantTo κ).map fun t => t.lendNext κ) (s.lendNext κ)
  | .reply rc op =>
    { s with pc := .listen, past := if rc = 0 ∧ op = .ends then s.sessions else s.past }

end SessState

----
-- Steps
----

inductive SessEvent where
  | init (ok : Bool) (answer : Except Int FsGrant)
  | login (uid : Nat)
  | send (op : SessOp)
  | die
  | notice
  | intrude (k : Nat)
  | pass (c : TaskCap) (dst : Task) (token : Nat) (rights : Rights)
  | drop (κ : Kind)
  | exit (k : Nat)

namespace SessState

variable (s : SessState)

/- The copy that init gave the shell. -/
def shellCap (κ : Kind) : Option SessCap :=
  (s.caps.find? fun c =>
    c.given && c.owner = .shell s.shell && c.kind = κ).map
    TaskCap.cap

def enqueue (m : SessMsg) : SessState :=
  if s.queue.length < sessQueueSlots then { s with queue := s.queue ++ [m] } else s

def buryTask (t : Task) : SessState := { s with caps := s.caps.filter fun c => c.owner ≠ t }

end SessState

/-
  `pass` stands for whatever a holder makes of a capability it
  has, for itself or for another task; `drop` is a revocation
  of `sh_drop_fs_slots`.
-/
def sessStep (s : SessState) : SessEvent → SessState
  | .init ok answer => s.initStep ok answer
  | .login uid =>
    { s with uid := uid, logged := some uid, lastLogin := update s.lastLogin uid (some s.shell) }
  | .send op => s.enqueue (.request s.shell op)
  | .die => { s.buryTask (.shell s.shell) with alive := false }
  | .notice => { s.enqueue .notice with noticed := true }
  | .intrude k => { s with intruder := some k }
  | .pass c dst token rights =>
    { s with
      caps :=
        { owner := dst
          kind := c.kind
          given := false
          cap := { path := s.next :: c.cap.path, token := token, rights := rights } } :: s.caps
      next := s.next + 1 }
  | .drop κ => (s.revoke (s.shellCap κ)).2
  | .exit k =>
    { s.buryTask (.other k) with intruder := if s.intruder = some k then none else s.intruder }

/- When an event can come. -/
def sessEnabled (s : SessState) : SessEvent → Bool
  | .init _ _ => true
  | .login _ => s.alive
  | .send _ => s.alive
  | .die => s.alive
  | .notice => !s.alive && !s.noticed && 0 < s.shell && s.queue.length < sessQueueSlots
  | .intrude _ => !s.alive && s.intruder.isNone
  | .pass c dst _ _ =>
    s.caps.contains c && match dst with
      | .shell n => s.alive && n = s.shell
      | .other _ => true
  | .drop _ => s.alive
  | .exit _ => true

def sessBoot : SessState :=
  { pc := .launch
    sessOpen := false
    sessG := 0
    sessAdmin := false
    kept := fun _ => none
    lent := fun _ => none
    msg := none
    shell := 0
    alive := false
    uid := 0
    intruder := none
    noticed := false
    queue := []
    caps := []
    next := 0
    logged := none
    lastLogin := fun _ => none
    sessions := []
    past := []
    ends := [] }

end Horus.Session

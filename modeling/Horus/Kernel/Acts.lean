import Horus.Kernel.Steps

/-
  What an operation can do to the capability state, as a
  sequence of a few elementary actions.

  Every operation is a run of actions: a serial is spent, a
  slot is written or emptied, a subtree is swept, a capability
  space is opened, abandoned or buried. `Act.Ok` keeps what
  the operation has checked when it gets there, so that an
  invariant needs one lemma for each action instead of one for
  each operation.
-/

namespace Horus

inductive Act where
  | burn
  | install (pid : Nat) (a : Addr) (c : Capability) (origin : Origin) (src : Option Addr)
  | place (a : Addr) (c : Capability) (origin : Origin)
  | erase (pid : Nat) (a : Addr)
  | sweep (cur : Nat) (a : Addr)
  | openSpace (id space : Nat)
  | age (id : Nat)
  | abandon (id : Nat)
  | bury (id : Nat) (scratch : Scratch)

namespace CapState

/- The sweep that revokes the capability in `a`. -/
def sweepOf (s : CapState) (cur : Nat) (a : Addr) : Sweep :=
  (rustCapRevokeGlobal a.space cnodeSize a.slot (some cur) (revokeSpaces s)
    { mem := s.mem, capsInUse := s.capsInUse, tally := zeroTally }).2

/- Task `id` comes to life with the empty space `space`. -/
def openSpace (s : CapState) (id space : Nat) : CapState :=
  (({ s with nextSpace := max s.nextSpace (space + 1) }).setTask id
    { reviveTask (s.tasks id) with cspace := some space, cspaceSize := cnodeSize }).clearSpace space

end CapState

def Act.apply (s : CapState) : Act → CapState
  | .burn => s.burn
  | .install pid a c origin src => s.burn.install pid a c origin (src.map s.mem)
  | .place a c origin => s.burn.place a c origin
  | .erase pid a => s.erase pid a
  | .sweep cur a =>
    { s with mem := (s.sweepOf cur a).mem, capsInUse := (s.sweepOf cur a).capsInUse }
  | .openSpace id space => s.openSpace id space
  | .age id => s.setTask id { reviveTask (s.tasks id) with state := .dead }
  | .abandon id => abandonTask s id
  | .bury id scratch => releaseCspace (abandonTask s id) id scratch

@[simp] theorem Act.install_mem (s : CapState) (pid : Nat) (a : Addr) (c : Capability)
    (origin : Origin) (src : Option Addr) : ((Act.install pid a c origin src).apply s).mem =
      Function.update s.mem a c := rfl

@[simp] theorem Act.place_mem (s : CapState) (a : Addr) (c : Capability)
    (origin : Origin) : ((Act.place a c origin).apply s).mem = Function.update s.mem a c := rfl

/- The child region lies inside the parent's. -/
def Untyped.Within (child parent : Untyped) : Prop :=
  parent.base ≤ child.base ∧ child.base + child.size ≤ parent.base + parent.size

/- The share of the child is taken from the parent's. -/
def SchedContext.CarvedFrom (child parent rest : SchedContext) : Prop :=
  child.cpu = parent.cpu ∧ rest.sharePpm + child.sharePpm = parent.sharePpm

/- Object and token of `c`, made from `src`. -/
def Origin.Allows (src c : Capability) : Origin → Prop
  | .mint | .transfer | .grant | .clone => c.object = src.object ∧ c.token = src.token
  | .mintToken =>
    c.object = src.object ∧ src.typ = .endpoint ∧ src.token = 0 ∧ hasRights src.rights Right.mint ∧
      c.rights &&& Right.read = 0
  | .replyMint => c.object = src.object ∧ src.typ = .endpoint ∧ c.rights &&& Right.read = 0
  | .childPipe => c.object = src.object ∧ src.typ = .pipe ∧ c.token = 0
  | .untypedSplit parentIndex childIndex parent child =>
    src.object = parentIndex ∧ c.object = childIndex ∧
      child.Within parent ∧ src.typ = .untyped ∧ c.token = 0
  | .schedSplit parentIndex childIndex parent rest child =>
    src.object = parentIndex ∧ c.object = childIndex ∧ child.CarvedFrom parent rest ∧
      child.parent = parentIndex ∧ src.typ = .schedContext ∧ c.token = 0
  | _ => False

/- The types of the capabilities the kernel makes afresh. -/
def freshKind (typ : CapType) : Bool :=
  typ = .endpoint ∨ typ = .notification ∨ typ = .frame ∨ typ = .tcb ∨ typ = .pipe ∨ typ = .reply

/- The kinds of installation that have no source. -/
def Origin.afresh : Origin → Bool
  | .birth | .fromRoot | .retype | .recvReply | .childTcb
  | .pipeEnd => true
  | _ => false

/- Slot `a` belongs to the live task `pid`. -/
structure CapState.Owns (s : CapState) (pid : Nat) (a : Addr) : Prop where
  running : s.running pid = true
  space : (s.tasks pid).cspace = some a.space
  slot : a.slot < cnodeSize

/- The source of a derivation and what is made from it. -/
structure DerivedFrom (s : CapState) (b : Addr) (c : Capability) (origin : Origin) : Prop where
  owner : ∃ q, s.Owns q b
  used : (s.mem b).typ ≠ .null
  named : (s.mem b).serial ≠ 0
  badge : c.badge = (s.mem b).serial
  typ : c.typ = (s.mem b).typ
  rights : hasRights (s.mem b).rights c.rights = true
  allows : origin.Allows (s.mem b) c

/- A record that is made from no other. -/
structure MadeAfresh (c : Capability) (origin : Origin) : Prop where
  badge : c.badge = 0
  token : c.token = 0
  origin : origin.afresh = true

def Act.Ok (s : CapState) : Act → Prop
  | .burn => True
  | .install pid a c origin src =>
    s.Owns pid a ∧ c.serial = s.freshSerial ∧ s.freshSerial ≠ 0 ∧
    ((s.mem a).typ = .null → s.capsInUse pid < maxCapsPerTask) ∧ match src with
    | none => MadeAfresh c origin ∧ freshKind c.typ = true
    | some b => DerivedFrom s b c origin
  | .place a c origin =>
    (∃ pid, s.Owns pid a) ∧ c.serial = s.freshSerial ∧ MadeAfresh c origin ∧
    (freshKind c.typ = true ∨ ∃ slot, c.typ = (s.mem ⟨rootSpace, slot⟩).typ)
  | .erase pid a => s.Owns pid a
  | .sweep cur a => s.Owns cur a ∧ (s.mem a).typ ≠ .null ∧ isPrimordialRoot s.mem a = false
  | .openSpace id space =>
    s.freeSlot id = true ∧ ((s.tasks id).cspace = some space ∨ space = s.nextSpace)
  | .age id => s.freeSlot id = true
  | .abandon id => id ≠ 0 ∧ s.running id = true
  | .bury id _ => id ≠ 0 ∧ s.running id = true

/- Runs of actions that also meet the guard `G`. -/
def ActRun (G : CapState → Act → Prop) : CapState → CapState → Prop :=
  Lib.Run Act.apply (fun s act => act.Ok s ∧ G s act)

end Horus

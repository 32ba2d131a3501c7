import Horus.Kernel.Lifecycle
import Horus.Lib.Runs

/-
  The capability system as a transition system: boot, the
  operations, and when an operation can be issued.

  An operation stands for one completed call. `enabled` keeps
  what the callers of the kernel functions establish: the
  caller is a live task, a task is created in a dead slot.
  `cap_move` is a run of two operations, since other tasks can
  come between its transfer and its revocation.
-/

namespace Horus

/- `task_tcb_held`: some slot names the target's incarnation. -/
def taskTcbHeld (s : CapState) (cur target : Nat) (need : Rights) : Bool :=
  match (s.tasks cur).cspace with
  | none => false
  | some space =>
    (List.range (s.tasks cur).cspaceSize).any fun slot =>
      let c := s.mem ⟨space, slot⟩
      c.typ = .tcb && hasRights c.rights need && c.object = s.tcbObject target

def capslotUser : Nat := 6

def taskKillAuthorized (s : CapState) (cur target : Nat) : Bool :=
  if cur = 0 ∨ s.maxTasks ≤ cur then false
  else if (capLookup s cur capslotUser (some .user) Right.all).isSome then true
  else taskTcbHeld s cur target Right.write

def hCapGrant (s : CapState) (cur target dest src : Nat) : Bool × CapState :=
  if target = 0 ∨ s.maxTasks ≤ target ∨ target = cur ∨
      (s.tasks target).state = .dead then (false, s)
  else if !taskKillAuthorized s cur target then (false, s)
  else capGrantFromUser s cur target dest src Right.all

/- What the boot finds: tasks, devices, memory and CPUs. -/
structure BootConfig where
  maxTasks : Nat
  nic : Option Nat
  untypeds : Nat → Untyped
  scs : Nat → SchedContext
  someTask : 0 < maxTasks
  fewTasks : maxTasks ≤ 256
  regionsFit : ∀ i, (untypeds i).base + (untypeds i).size < 2 ^ 64

/- Before the first task: only the root capabilities. -/
def preBoot (cfg : BootConfig) : CapState :=
  { mem := fun a =>
      if a.space = rootSpace then rootCnode cfg.nic a.slot else Capability.nullify
    nextSerial := 0
    capsInUse := fun _ => 0
    tasks := fun _ => Tcb.empty
    nextSpace := 1
    maxTasks := cfg.maxTasks
    log := []
    uncounted := fun _ => false }

/- `create_task` for task 0, which also gets slots 8 and 9. -/
def bootCap (cfg : BootConfig) : CapState :=
  ((createTask (preBoot cfg) 0 .kernel).place ⟨1, 8⟩
      (freshCap .console Right.all 0 0xC0DE0008) .birth).place
    ⟨1, 9⟩ (freshCap .encryptedStorage Right.all 0 0xC0DE0009)
    .birth

def boot (cfg : BootConfig) : Sys :=
  { cap := bootCap cfg
    obj :=
      { pipes := fun _ =>
          { inUse := false, gen := 0, readerEnds := 0, writerEnds := 0 }
        untypeds := cfg.untypeds
        scs := cfg.scs } }

----
-- Operations
----

inductive Op where
  | createTask (id : Nat) (source : CNodeSource)
  | spawnAborted (id : Nat) (source : CNodeSource)
  | fork (parent child : Nat) (source : CNodeSource)
  | teardown (id : Nat) (scratch : Scratch)
  | installFromRoot (pid slot rootSlot object : Nat)
  | retype (cur dest : Nat) (typ : CapType) (object : Nat)
  | childTcb (cur child : Nat)
  | installReplyFor (pid sender senderGen : Nat)
  | consumeReply (cur : Nat)
  | mint (cur dest src : Nat) (rights : Rights)
  | mintToken (cur dest src : Nat) (rights : Rights) (token : Nat)
  | transfer (cur dest src : Nat)
  | grant (cur target dest src : Nat)
  | grantInto (cur target dest src : Nat) (rights : Rights)
  | replyMint (pid invSlot invSerial epIndex dest : Nat) (rights : Rights) (token : Nat)
  | childPipeEnd (child dest spawner src : Nat) (rights : Rights)
  | pipe (cur : Nat)
  | pipeClose (cur slot : Nat)
  | untypedSplit (cur src dest bytes : Nat)
  | schedSplit (cur parentSlot untypedSlot dest budgetUs periodUs : Nat)
      (slack badFlags : Bool) (allocated : Option Nat)
  | revoke (cur slot : Nat)
  | kobj (watermarks : Nat → Nat) (scs : Nat → SchedContext)

def Sys.liftCap (s : Sys) (r : Bool × CapState) : Bool × Sys := (r.1, { s with cap := r.2 })

/-
  Run one operation: what it returns and the state after it.
  `kobj` is the object allocator and the scheduler, which
  move watermarks and shares and touch no capability.
-/
def exec (s : Sys) : Op → Bool × Sys
  | .createTask id source => (true, { s with cap := createTask s.cap id source })
  | .spawnAborted id source => (false, { s with cap := spawnAborted s.cap id source })
  | .fork parent child source => hFork s parent child source
  | .teardown id scratch => (true, taskTeardown s id scratch)
  | .installFromRoot pid slot rootSlot object =>
    s.liftCap (capInstallFromRoot s.cap pid slot rootSlot object)
  | .retype cur dest typ object =>
    s.liftCap (capInstallObject s.cap cur dest typ object
        (Right.read ||| Right.write ||| Right.grant ||| Right.mint ||| Right.revoke) .retype)
  | .childTcb cur child =>
    let r := capInstallObjectFirstFree s.cap cur capslotDynamicFirst .tcb (s.cap.tcbObject child)
        (Right.read ||| Right.write ||| Right.mint ||| Right.priority) .childTcb
    s.liftCap (r.1.isSome, r.2)
  | .installReplyFor pid sender senderGen =>
    s.liftCap (capInstallReplyFor s.cap pid sender senderGen)
  | .consumeReply cur => s.liftCap (capConsumeSlot s.cap cur capslotReply)
  | .mint cur dest src rights => s.liftCap (capMint s.cap cur dest src rights)
  | .mintToken cur dest src rights token => s.liftCap (capMintToken s.cap cur dest src rights token)
  | .transfer cur dest src => s.liftCap (capTransfer s.cap cur dest src)
  | .grant cur target dest src => s.liftCap (hCapGrant s.cap cur target dest src)
  | .grantInto cur target dest src rights =>
    s.liftCap (capGrantInto s.cap cur target dest src rights)
  | .replyMint pid invSlot invSerial epIndex dest rights token =>
    s.liftCap (capReplyMintInto s.cap pid invSlot invSerial epIndex dest rights token)
  | .childPipeEnd child dest spawner src rights =>
    capInstallChildPipeEnd s child dest spawner src rights
  | .pipe cur => hPipe s cur
  | .pipeClose cur slot => hPipeClose s cur slot
  | .untypedSplit cur src dest bytes => untypedSplit s cur src dest bytes
  | .schedSplit cur parentSlot untypedSlot dest budgetUs periodUs slack badFlags allocated =>
    schedSplit s cur parentSlot untypedSlot dest budgetUs periodUs slack badFlags allocated
  | .revoke cur slot => capRevoke s cur slot
  | .kobj watermarks scs =>
    (true,
      { s with
        obj :=
          { s.obj with
            untypeds := fun i => { s.obj.untypeds i with watermark := watermarks i }
            scs := scs } })

/- A task that can be running a system call. -/
def CapState.running (s : CapState) (cur : Nat) : Bool :=
  cur < s.maxTasks ∧ (s.tasks cur).state ≠ .dead

/- A slot in which a task can be created. -/
def CapState.freeSlot (s : CapState) (id : Nat) : Bool :=
  id ≠ 0 ∧ id < s.maxTasks ∧ (s.tasks id).state = .dead

/- The objects that `untyped_retype` makes. -/
def retypeKind (typ : CapType) : Bool := typ = .endpoint ∨ typ = .notification ∨ typ = .frame

/- What the callers establish before each operation. -/
def enabled (s : CapState) : Op → Bool
  | .createTask id _ => s.freeSlot id
  | .spawnAborted id _ => s.freeSlot id
  | .fork parent child _ => s.running parent && s.freeSlot child
  | .teardown id _ => id ≠ 0 ∧ id < s.maxTasks
  | .installFromRoot pid _ _ _ => s.running pid
  | .retype cur _ typ _ => s.running cur && retypeKind typ
  | .childTcb cur _ => s.running cur
  | .installReplyFor pid _ _ => s.running pid
  | .consumeReply cur => s.running cur
  | .mint cur _ _ _ => s.running cur
  | .mintToken cur _ _ _ _ => s.running cur
  | .transfer cur _ _ => s.running cur
  | .grant cur _ _ _ => s.running cur
  | .grantInto cur target _ _ _ => s.running cur && s.running target
  | .replyMint pid _ _ _ _ _ _ => s.running pid
  | .childPipeEnd child _ spawner _ _ => s.running child && s.running spawner
  | .pipe cur => s.running cur
  | .pipeClose cur _ => s.running cur
  | .untypedSplit cur _ _ _ => s.running cur
  | .schedSplit cur _ _ _ _ _ _ _ _ => s.running cur
  | .revoke cur _ => s.running cur
  | .kobj _ _ => true

/- Runs whose every step also meets the condition `C`. -/
def RunsWhile (C : Sys → Op → Prop) : Sys → Sys → Prop :=
  Lib.Run (fun s op => (exec s op).2) (fun s op => enabled s.cap op = true ∧ C s op)

theorem RunsWhile.snoc {C : Sys → Op → Prop} {s s' : Sys} (hRun : RunsWhile C s s') (op : Op)
    (hEnabled : enabled s'.cap op = true) (hC : C s' op) : RunsWhile C s (exec s' op).2 := by
  unfold RunsWhile at *
  exact hRun.snoc op ⟨hEnabled, hC⟩

/- A move is a transfer, followed by a revocation. -/
theorem capMove_runsWhile {C : Sys → Op → Prop}
    (s : Sys) (cur dest src : Nat) (hRun : s.cap.running cur = true)
    (hTransfer : C s (.transfer cur dest src))
    (hStill : (capTransfer s.cap cur dest src).2.running cur = true)
    (hRevoke : C (exec s (.transfer cur dest src)).2 (.revoke cur src)) :
    RunsWhile C s (capMove s cur dest src).2 := by
  have hFirst : RunsWhile C s (exec s (.transfer cur dest src)).2 :=
    RunsWhile.snoc (Lib.Run.refl s) _ hRun hTransfer
  unfold capMove
  dsimp only
  split
  · exact hFirst.snoc (.revoke cur src) hStill hRevoke
  · exact hFirst

/- The states that runs from boot pass through. -/
def Reachable (cfg : BootConfig) (s : Sys) : Prop := RunsWhile (fun _ _ => True) (boot cfg) s

def execAll (s : Sys) (ops : List Op) : Sys := Lib.runAll (fun s op => (exec s op).2) s ops

/- Each operation of the list may be issued in its turn. -/
def Allowed (C : Sys → Op → Prop) (s : Sys) (ops : List Op) : Prop :=
  Lib.AllOk (fun s op => (exec s op).2) (fun s op => enabled s.cap op = true ∧ C s op) s ops

instance Allowed.decidable (C : Sys → Op → Prop)
    [∀ s op, Decidable (C s op)] (s : Sys) (ops : List Op) : Decidable (Allowed C s ops) :=
  inferInstanceAs (Decidable (Lib.AllOk _ _ s ops))

theorem runsWhile_execAll {C : Sys → Op → Prop} {s : Sys} (ops : List Op)
    (hAllowed : Allowed C s ops) : RunsWhile C s (execAll s ops) :=
  Lib.run_runAll ops hAllowed

/- Three task slots, no device and no free memory. -/
def smallMachine : BootConfig :=
  { maxTasks := 3
    nic := none
    untypeds := fun _ => { base := 0, size := 0, watermark := 0, objects := 0, inUse := false }
    scs := fun _ =>
      { live := false, cpu := 0, sharePpm := 0, periodUs := 0, slack := false, parent := 0 }
    someTask := by decide
    fewTasks := by decide
    regionsFit := fun _ => by decide }

end Horus

import Horus.Ipc.State
import Horus.Memory.CollectFrames

/-
  Interrupts that signal a notification (`idt.c`, `msi.c`,
  `ioapic.c`, `syscall_hw.c`), on top of the objects and the
  capabilities that name them.

  A registration keeps the index of a notification, not a
  capability for it. The two lookups of a registering call and
  the write of the registration are separate steps, and a task
  that is killed on another CPU goes on to the end of its call
  after `task_teardown` has cleared its registrations.

  `life`, `begun`, `fired`, `programmed` and `log` are not in
  the source: the incarnation in a task slot, whether its
  teardown has begun, the lines that have fired since they were
  last registered or acknowledged, the vector each device has
  been given, and every registration with the capabilities it
  was made with.
-/

namespace Horus.Device

open Function

/- The fields of `struct io_device` that interrupts need. -/
structure IoDevice where
  bdf : Option Nat
  irqMask : BitVec 32
  msiCap : Nat
deriving DecidableEq, Repr

/- `iodev_allows_irq`. -/
def IoDevice.allowsIrq (d : IoDevice) (irq : Int) : Bool :=
  0 ≤ irq ∧ irq ≤ 31 ∧ d.irqMask.getLsbD irq.toNat = true

/- `msi_program_device` is refused only here. -/
def IoDevice.takesMessages (d : IoDevice) : Bool := d.msiCap ≠ 0 ∧ d.bdf.isSome = true

/- `acpi_ioapic_info` with the number of pins. -/
structure IoApic where
  gsiBase : Nat
  pins : Nat
  isoGsi : Nat → Nat

/- `pin_for_gsi` of `gsi_for_irq`. -/
def IoApic.pinOf (info : IoApic) (irq : Nat) : Option Nat :=
  let gsi := info.isoGsi irq
  if gsi < info.gsiBase then none
  else if info.pins ≤ gsi - info.gsiBase then none
  else some (gsi - info.gsiBase)

/- A redirection entry. -/
structure RedEntry where
  vector : Nat
  masked : Bool
deriving DecidableEq, Repr

/- Interrupts come from the 8259 or from the I/O APIC. -/
inductive IrqChip where
  | pic (mask : Nat → Bool)
  | ioapic (info : IoApic) (entries : Nat → RedEntry)

namespace IrqChip

/- `pic_set_masked`. -/
def setMasked (chip : IrqChip) (irq : Nat) (masked : Bool) : IrqChip :=
  if 15 < irq then chip
  else
    match chip with
    | .ioapic info entries =>
      match info.pinOf irq with
      | none => chip
      | some pin => .ioapic info (update entries pin ⟨32 + irq, masked⟩)
    | .pic mask =>
    let mask := update mask irq masked
    -- the second 8259 interrupts through line 2
    if masked = false ∧ 8 ≤ irq then .pic (update mask 2 false) else .pic mask

/- An interrupt on the line would be delivered. -/
def unmasked (chip : IrqChip) (line : Nat) : Bool :=
  match chip with
  | .pic mask => !mask line
  | .ioapic info entries => (List.range info.pins).any fun pin => entries pin = ⟨32 + line, false⟩

/- The timer and the keyboard are unmasked at boot. -/
def picBoot : IrqChip := .pic fun line => 2 ≤ line

/- `ioapic_init`. -/
def ioapicBoot (info : IoApic) : IrqChip :=
  ((IrqChip.ioapic info fun _ => ⟨0, true⟩).setMasked 0 false).setMasked 1 false

def isIoapic : IrqChip → Bool
  | .pic _ => false
  | .ioapic _ _ => true

end IrqChip

def irqNotifyMax : Nat := 16

/- `struct irq_notify_reg`. -/
structure IrqReg where
  task : Nat
  slot : Nat
  badge : BitVec 32
  active : Bool
deriving DecidableEq, Repr

structure Lines where
  reg : Nat → IrqReg
  chip : IrqChip

def irqNotifyRegister (l : Lines) (irq : Int) (task slot : Nat)
    (badge : BitVec 32) : Option Lines :=
  if irq < 0 ∨ irqNotifyMax ≤ irq then none
  else
    some
      { reg := update l.reg irq.toNat ⟨task, slot, badge, true⟩
        chip := l.chip.setMasked irq.toNat false }

/- One turn of the loop of `irq_notify_clear_task`. -/
def clearTurn (task : Nat) (l : Lines) (i : Nat) : Lines :=
  if (l.reg i).active = true ∧ (l.reg i).task = task then
    { reg := update l.reg i { l.reg i with active := false }
      chip := if i ≠ 0 then l.chip.setMasked i true else l.chip }
  else l

def irqNotifyClearTask (l : Lines) (task : Nat) : Lines :=
  (List.range irqNotifyMax).foldl (clearTurn task) l

def irqNotifyAck (l : Lines) (irq : Int) (task : Nat) : Option Lines :=
  if irq < 0 ∨ irqNotifyMax ≤ irq then none
  else if (l.reg irq.toNat).active = false ∨ (l.reg irq.toNat).task ≠ task then none
  else some { l with chip := l.chip.setMasked irq.toNat false }

/-
  The interrupt of a line. Only the lines from 2 are masked
  while their interrupt is being served.
-/
def Lines.interrupt (l : Lines) (line : Nat) : Lines :=
  if 2 ≤ line ∧ (l.reg line).active = true then { l with chip := l.chip.setMasked line true } else l

/- What it passes to `sys_notify` (`irq_notify_fire`). -/
def lineSignal (l : Lines) (line : Nat) : Option (Nat × BitVec 32) :=
  if line < irqNotifyMax ∧ (l.reg line).active = true then
    some ((l.reg line).slot, (l.reg line).badge)
  else none

def msiVectorBase : Nat := 48
def msiVectorCount : Nat := 16

/- `struct msi_route`; no task is -1. -/
structure MsiRoute where
  inUse : Bool
  devindex : Nat
  task : Option Nat
  notif : Nat
  badge : BitVec 32
deriving DecidableEq, Repr

structure Messages where
  routes : Nat → MsiRoute
  programmed : Nat → Option Nat

/- The route that `msi_register` gives a device. -/
def Messages.routeFor (m : Messages) (devindex : Nat) : Option Nat :=
  match firstIndex (fun i =>
        (m.routes i).inUse && (m.routes i).devindex == devindex)
      msiVectorCount with
  | some i => some i
  | none => firstIndex (fun i => !(m.routes i).inUse) msiVectorCount

def msiRegister (m : Messages) (d : IoDevice) (devindex task notif : Nat)
    (badge : BitVec 32) : Option Messages :=
  if d.takesMessages = false then none
  else
    match m.routeFor devindex with
    | none => none
    | some i =>
    some
      { routes := update m.routes i ⟨true, devindex, some task, notif, badge⟩
        programmed := update m.programmed devindex (some (msiVectorBase + i)) }

/- `msi_clear_task`: the vector stays with its device. -/
def msiClearTask (m : Messages) (task : Nat) : Messages :=
  { m with
    routes := Lib.updateWhere (fun r => r.inUse && r.task == some task)
        (fun r => { r with task := none })
        (List.range msiVectorCount) m.routes }

/- What `msi_dispatch` passes to `sys_notify`. -/
def vectorSignal (m : Messages) (vector : Nat) : Option (Nat × BitVec 32) :=
  if vector < msiVectorBase ∨ msiVectorBase + msiVectorCount ≤ vector then none
  else
    let r := m.routes (vector - msiVectorBase)
    if r.inUse = false ∨ r.task = none then none else some (r.notif, r.badge)

/-
  What a call asks for: `SYS_IRQ_REGISTER`, `SYS_MSI_REGISTER`
  and `SYS_IRQ_ACK`.
-/
inductive Wish where
  | line (irq : Int)
  | message
  | ack (irq : Int)
deriving DecidableEq, Repr

/-
  A call between its lookups and its effect: the capability
  for the device that it found, and the one for the
  notification with the object that one was made for.
-/
structure Ask where
  wish : Wish
  notifSlot : Nat
  badge : BitVec 32
  life : Nat
  device : Capability
  notif : Option (Capability × Nat)
deriving DecidableEq, Repr

/- A registration that was made. -/
structure Registration where
  wish : Wish
  task : Nat
  life : Nat
  badge : BitVec 32
  device : Capability
  notif : Capability
  named : Nat
deriving DecidableEq, Repr

structure HwState where
  store : Store
  lines : Lines
  messages : Messages
  asking : Nat → Option Ask
  life : Nat → Nat
  begun : Nat → Bool
  fired : Nat → Bool
  log : List Registration

def hwBoot (cfg : BootConfig) (mcfg : MemConfig) (chip : IrqChip) : HwState :=
  { store := storeBoot cfg mcfg
    lines := ⟨fun _ => ⟨0, 0, 0, false⟩, chip⟩
    messages := ⟨fun _ => ⟨false, 0, some 0, 0, 0⟩, fun _ => none⟩
    asking := fun _ => none
    life := fun _ => 0
    begun := fun _ => false
    fired := fun _ => false
    log := [] }

----
-- Steps
----

/- `notification_by_index` finds an object. -/
def notifThere (s : Store) (n : Nat) : Bool :=
  n < maxNotifications || (n < notifIndexMax &&
      (s.mem.slots .notification (n - dynNotifBase)).mem.isSome)

/- The check of the device in each of the three calls. -/
def IoDevice.allows (d : IoDevice) : Wish → Bool
  | .line irq => d.allowsIrq irq
  | .message => d.msiCap ≠ 0
  | .ack irq => d.allowsIrq irq

inductive HwOp where
  | store (op : StoreOp)
  | askDevice (t devSlot : Nat) (wish : Wish) (notifSlot : Nat) (badge : BitVec 32)
  | askNotif (t : Nat)
  | apply (t : Nat)
  | clear (t : Nat)
  | interrupt (line : Nat)
  | message (vector : Nat)

namespace HwState

/- `iodev_from_slot` and the check on what it found. -/
def lookDevice (devices : Nat → Option IoDevice)
    (s : HwState) (t devSlot : Nat) (wish : Wish) (notifSlot : Nat) (badge : BitVec 32) : HwState :=
  if t = 0 ∨ s.store.sys.cap.maxTasks ≤ t then s
  else
    match capLookup s.store.sys.cap t devSlot (some .ioDevice) Right.write with
    | none => s
    | some a =>
      let c := s.store.sys.cap.mem a
      match devices c.object with
      | none => s
      | some d =>
      if d.allows wish then
        { s with
          asking := update s.asking t (some
                { wish := wish
                  notifSlot := notifSlot
                  badge := badge
                  life := s.life t
                  device := c
                  notif := none }) }
      else s

/- `ipc_notif_from_slot`, or the call fails. -/
def lookNotif (s : HwState) (t : Nat) (ask : Ask) : HwState :=
  let cap := s.store.sys.cap
  match capLookupIpcObject cap t ask.notifSlot .notification
      Right.write notifIndexMax, cap.slotOf t ask.notifSlot with
  | some n, some a =>
    if notifThere s.store n then
      { s with
        asking := update s.asking t (some
              { ask with notif := some (cap.mem a, s.store.named a) }) }
    else { s with asking := update s.asking t none }
  | _, _ => { s with asking := update s.asking t none }

/- The registration that `ask` makes. -/
def registration (t : Nat) (ask : Ask) (c : Capability) (named : Nat) : Registration :=
  { wish := ask.wish
    task := t
    life := ask.life
    badge := ask.badge
    device := ask.device
    notif := c
    named := named }

/- The effect of the call, which then returns. -/
def applyAsk (devices : Nat → Option IoDevice) (s : HwState) (t : Nat) (ask : Ask) : HwState :=
  let done := { s with asking := update s.asking t none }
  match ask.wish, ask.notif with
  | .ack irq, _ =>
    match irqNotifyAck s.lines irq t with
    | none => done
    | some lines => { done with lines := lines, fired := update s.fired irq.toNat false }
  | .line irq, some (c, named) =>
    match irqNotifyRegister s.lines irq t c.object ask.badge with
    | none => done
    | some lines =>
      { done with
        lines := lines
        fired := update s.fired irq.toNat false
        log := registration t ask c named :: s.log }
  | .message, some (c, named) =>
    match devices ask.device.object with
    | none => done
    | some d =>
    match msiRegister s.messages d ask.device.object t c.object ask.badge with
    | none => done
    | some messages =>
      { done with messages := messages, log := registration t ask c named :: s.log }
  | _, none => done

/- A creation begins a new life in the slot. -/
def reborn (s : HwState) (op : StoreOp) : HwState :=
  match op.creates with
  | none => s
  | some id => { s with life := update s.life id (s.life id + 1), begun := update s.begun id false }

end HwState

def hwExec (mcfg : MemConfig) (devices : Nat → Option IoDevice) (s : HwState) : HwOp → HwState
  | .store op => { s.reborn op with store := storeExec mcfg s.store op }
  | .askDevice t devSlot wish notifSlot badge => s.lookDevice devices t devSlot wish notifSlot badge
  | .askNotif t =>
    match s.asking t with
    | none => s
    | some ask => s.lookNotif t ask
  | .apply t =>
    match s.asking t with
    | none => s
    | some ask => s.applyAsk devices t ask
  | .clear t =>
    { s with
      lines := irqNotifyClearTask s.lines t
      messages := msiClearTask s.messages t
      begun := update s.begun t true }
  | .interrupt line => { s with lines := s.lines.interrupt line, fired := update s.fired line true }
  | .message _ => s

/- The call is ready for its effect. -/
def Ask.ready (ask : Ask) : Bool :=
  match ask.wish with
  | .ack _ => true
  | _ => ask.notif.isSome

/-
  A call returns only when it is done, and a task is marked
  dead only after its registrations have been cleared.
-/
def hwEnabled (s : HwState) : HwOp → Bool
  | .store (.leave t) => storeEnabled s.store (.leave t) && (s.asking t).isNone
  | .store (.die id) => storeEnabled s.store (.die id) && s.begun id
  | .store op => storeEnabled s.store op
  | .askDevice t _ _ _ _ => s.store.inCall t && (s.asking t).isNone
  | .askNotif t => (s.asking t).any fun ask => !ask.ready
  | .apply t => (s.asking t).any Ask.ready
  | .clear t => t ≠ 0 ∧ s.store.sys.cap.running t = true ∧ s.begun t = false
  | .interrupt line => line < irqNotifyMax
  | .message _ => true

/- Any interleaving whose steps also meet the condition `C`. -/
def HwRun (mcfg : MemConfig) (devices : Nat → Option IoDevice)
    (C : HwState → HwOp → Prop) : HwState → HwState → Prop :=
  Lib.Run (hwExec mcfg devices) (fun s op => hwEnabled s op = true ∧ C s op)

end Horus.Device

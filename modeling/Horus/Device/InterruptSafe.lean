import Horus.Device.Interrupts

/-
  An interrupt signals what its registrant may signal.

  Three things break this. The collector does not look at the
  registrations, so the index of a notification that nobody can
  name any more is given to a new object while an interrupt
  still signals it. A task whose teardown has begun can still
  register, and what it registers outlives it. The 8259 lets
  the lines from 8 through by unmasking line 2, which nobody
  has registered. The results are about runs without these
  steps.

  Main declarations:
    * `HwState.Watched`, `Careful`
    * `HwState.Backs`
    * `HwSound`, `HwSound.step`
    * `interrupt_signals_registrant`
-/

namespace Horus.Device

open HwState
open Function

variable {chip : IrqChip} {irq line task devindex t n slot : Nat}
    {fired : Nat → Bool} {l : Lines} {m : Messages} {badge : BitVec 32}
    {devices : Nat → Option IoDevice} {r : Registration} {c : CapState}
    {a : Addr} {ask : Ask} {op : StoreOp}

/- An index that a registration names, or is about to. -/
def HwState.Watched (s : HwState) (n : Nat) : Prop :=
  (∃ line < irqNotifyMax, (s.lines.reg line).active = true ∧ (s.lines.reg line).slot = n) ∨
    (∃ i < msiVectorCount, (s.messages.routes i).inUse = true ∧ (s.messages.routes i).task ≠ none ∧
        (s.messages.routes i).notif = n) ∨
    (∃ t < s.store.sys.cap.maxTasks, s.begun t = false ∧ (((s.asking t).bind Ask.notif).any
          fun found => found.1.object = n) = true)

instance HwState.Watched.decidable (s : HwState) (n : Nat) : Decidable (s.Watched n) := by
  unfold Watched
  infer_instance

/- A line that can be unmasked on its own. -/
def HwState.Single (s : HwState) (irq : Int) : Prop := irq < 8 ∨ s.lines.chip.isIoapic = true

/- A collection finds what the registrations name. -/
def HwState.Spares (s : HwState) (op : StoreOp) : Prop :=
  match sweepsFrom s.store op with
  | none => True
  | some x =>
    ∀ i < KobjClass.notification.maxDyn, s.Watched (dynNotifBase + i) → x.Finds .notification i

instance HwState.Spares.decidable (s : HwState) (op : StoreOp) : Decidable (s.Spares op) := by
  unfold Spares
  split <;> infer_instance

/-
  The collector finds a capability for each notification that
  a registration names, only a live task grants, a task whose
  teardown has begun does not register, and the lines from 8
  are used with the I/O APIC.
-/
def Careful (s : HwState) : HwOp → Prop
  | .store op => NoLateGrant s.store op ∧ s.Spares op
  | .apply t =>
    match (s.asking t).map Ask.wish with
    | some (.line irq) => s.begun t = false ∧ s.Single irq
    | some .message => s.begun t = false
    | some (.ack irq) => s.Single irq
    | none => True
  | _ => True

/- The capability was for the object that its index holds. -/
def Denotes (s : Store) (c : Capability) (named : Nat) : Prop :=
  notifThere s c.object = true ∧ ∀ cls i, c.dynName = some (cls, i) → s.ids cls i = named

/- The capabilities for a device and a notification. -/
structure Entitles (devices : Nat → Option IoDevice) (r : Registration) : Prop where
  device : r.device.typ = .ioDevice
  deviceWrite : hasRights r.device.rights Right.write = true
  declares : ∃ d, devices r.device.object = some d ∧ d.allows r.wish = true
  notif : r.notif.typ = .notification
  notifWrite : hasRights r.notif.rights Right.write = true

/-
  The live incarnation of the task made this registration, and
  was entitled to it for the object that the index holds now.
-/
structure HwState.Backs (devices : Nat → Option IoDevice) (s : HwState) (r : Registration) (n : Nat)
    (badge : BitVec 32) : Prop where
  logged : r ∈ s.log
  alive : s.store.sys.cap.running r.task = true
  life : s.life r.task = r.life
  badge : r.badge = badge
  index : r.notif.object = n
  entitles : Entitles devices r
  denotes : Denotes s.store r.notif r.named

/- All that the three calls promise about interrupts. -/
structure InterruptsSafe (devices : Nat → Option IoDevice) (s : HwState) : Prop where
  lines : ∀ line n badge, lineSignal s.lines line = some (n, badge) →
      ∃ r, s.Backs devices r n badge ∧ r.wish = .line line
  messages : ∀ vector n badge, vectorSignal s.messages vector = some (n, badge) →
      ∃ r, s.Backs devices r n badge ∧ r.wish = .message ∧
        s.messages.programmed r.device.object = some vector
  vectors : ∀ d d' vector, s.messages.programmed d = some vector →
    s.messages.programmed d' = some vector → d = d'
  masks : ∀ line, 2 ≤ line → line ≤ 15 → s.lines.chip.unmasked line = true →
      (lineSignal s.lines line).isSome = true ∧ s.fired line = false

----
-- The Controller
----

namespace IrqChip

/- Only the pin of a line delivers its vector. -/
def Routed : IrqChip → Prop
  | .pic _ => True
  | .ioapic info entries =>
    ∀ pin line, entries pin = ⟨32 + line, false⟩ → info.pinOf line = some pin

theorem Routed.setMasked (hRouted : chip.Routed)
    (irq : Nat) (masked : Bool) : (chip.setMasked irq masked).Routed := by
  unfold IrqChip.setMasked
  split
  · exact hRouted
  cases chip with
  | pic =>
    dsimp only
    split <;> trivial
  | ioapic =>
  dsimp only
  split
  · exact hRouted
  rename_i pin hPin
  intro pin' line hEntry
  rcases eq_or_ne pin' pin with rfl | hEq
  · rw [update_self, RedEntry.mk.injEq] at hEntry
    obtain rfl : irq = line := by omega
    exact hPin
  · rw [update_of_ne hEq] at hEntry
    exact hRouted pin' line hEntry

theorem unmasked_setMasked_self (hRouted : chip.Routed) (hIrq : irq ≤ 15) :
    (chip.setMasked irq true).unmasked irq = false := by
  unfold IrqChip.setMasked
  rw [if_neg (by omega)]
  cases chip with
  | pic => simp [unmasked]
  | ioapic info entries =>
  have hOther : ∀ pin, entries pin = ⟨32 + irq, false⟩ → info.pinOf irq = some pin :=
    fun pin => hRouted pin irq
  dsimp only
  split
  · rename_i hNone
    simp only [unmasked, List.any_eq_false, decide_eq_true_eq]
    intro pin _ hEntry
    rw [hOther pin hEntry] at hNone
    cases hNone
  rename_i pin hPin
  simp only [unmasked, List.any_eq_false, decide_eq_true_eq]
  intro pin' _ hEntry
  rcases eq_or_ne pin' pin with rfl | hEq
  · rw [update_self] at hEntry
    cases hEntry
  · rw [update_of_ne hEq] at hEntry
    rw [hOther pin' hEntry] at hPin
    exact hEq (Option.some.inj hPin)

/- Other lines are as they were, but for line 2 of the 8259. -/
theorem unmasked_setMasked_of_ne {masked : Bool} (hNe : line ≠ irq)
    (hSingle : masked = true ∨ irq < 8 ∨ chip.isIoapic = true)
    (hUnmasked : (chip.setMasked irq masked).unmasked line = true) : chip.unmasked line = true := by
  unfold IrqChip.setMasked at hUnmasked
  split at hUnmasked
  · exact hUnmasked
  cases chip with dsimp only at hUnmasked
  | pic =>
    have hAlone : ¬ (masked = false ∧ 8 ≤ irq) := by
      rintro ⟨hOpen, hHigh⟩
      rcases hSingle with hMasked | hLow | hChip
      · rw [hOpen] at hMasked
        cases hMasked
      · omega
      · cases hChip
    rw [if_neg hAlone] at hUnmasked
    simpa [unmasked, hNe] using hUnmasked
  | ioapic =>
    split at hUnmasked
    · exact hUnmasked
    rename_i pin _
    simp only [unmasked, List.any_eq_true, decide_eq_true_eq] at hUnmasked ⊢
    rcases hUnmasked with ⟨pin', hRange, hEntry⟩
    refine ⟨pin', hRange, ?_⟩
    rcases eq_or_ne pin' pin with rfl | hEq
    · rw [update_self, RedEntry.mk.injEq] at hEntry
      omega
    · rwa [update_of_ne hEq] at hEntry

/- How the two controllers are found at boot. -/
def AtBoot (chip : IrqChip) : Prop := chip = picBoot ∨ ∃ info, chip = ioapicBoot info

theorem AtBoot.routed (hBoot : chip.AtBoot) : chip.Routed := by
  rcases hBoot with rfl | ⟨info, rfl⟩
  · trivial
  apply Routed.setMasked
  apply Routed.setMasked
  intro pin line hEntry
  rw [RedEntry.mk.injEq] at hEntry
  cases hEntry.2

theorem AtBoot.masked (hBoot : chip.AtBoot) (hLine : 2 ≤ line) : chip.unmasked line = false := by
  rcases hBoot with rfl | ⟨info, rfl⟩
  · simp [picBoot, unmasked, hLine]
  by_contra hOpen
  rw [Bool.not_eq_false] at hOpen
  have hFirst := unmasked_setMasked_of_ne (by omega) (.inr (.inl (by omega))) hOpen
  have hNone := unmasked_setMasked_of_ne (by omega) (.inr (.inl (by omega))) hFirst
  simp [unmasked] at hNone

end IrqChip

----
-- Lines
----

namespace Lines

/- A line is let through until its interrupt has come. -/
def Masks (l : Lines) (fired : Nat → Bool) : Prop :=
  ∀ line, 2 ≤ line → line ≤ 15 → l.chip.unmasked line = true →
      (l.reg line).active = true ∧ fired line = false

/- A line that is masked is not let through. -/
theorem Masks.mask {reg : Nat → IrqReg} {fired' : Nat → Bool} (hMasks : l.Masks fired)
    (hRouted : l.chip.Routed) (hRest : ∀ line, line ≠ irq → reg line = l.reg line)
    (hFired : ∀ line, line ≠ irq → fired' line = fired line) :
    Masks ⟨reg, l.chip.setMasked irq true⟩ fired' := by
  intro line hLow hHigh hOpen
  rcases eq_or_ne line irq with rfl | hEq
  · rw [IrqChip.unmasked_setMasked_self hRouted hHigh] at hOpen
    cases hOpen
  · dsimp only
    rw [hRest line hEq, hFired line hEq]
    exact hMasks line hLow hHigh (IrqChip.unmasked_setMasked_of_ne hEq (.inl rfl) hOpen)

theorem Masks.clearTurn (hRouted : l.chip.Routed) (hMasks : l.Masks fired) (task i : Nat) :
    (clearTurn task l i).chip.Routed ∧ (clearTurn task l i).Masks fired := by
  have hRest : ∀ (r : IrqReg) line, line ≠ i → update l.reg i r line = l.reg line :=
    fun _ _ hNe => update_of_ne hNe ..
  unfold Device.clearTurn
  split
  · split
    · exact ⟨hRouted.setMasked i true, hMasks.mask hRouted (hRest _) fun _ _ => rfl⟩
    · refine ⟨hRouted, fun line hLow hHigh hOpen => ?_⟩
      dsimp only
      rw [hRest _ _ (by omega)]
      exact hMasks line hLow hHigh hOpen
  · exact ⟨hRouted, hMasks⟩

theorem Masks.irqNotifyClearTask (hRouted : l.chip.Routed) (hMasks : l.Masks fired) (task : Nat) :
    (irqNotifyClearTask l task).chip.Routed ∧ (irqNotifyClearTask l task).Masks fired := by
  unfold Device.irqNotifyClearTask
  generalize List.range irqNotifyMax = turns
  induction turns generalizing l with
  | nil => exact ⟨hRouted, hMasks⟩
  | cons i _ ih =>
    have hTurn := hMasks.clearTurn hRouted task i
    exact ih hTurn.1 hTurn.2

theorem clearTurns_reg (task : Nat) (turns : List Nat) (l : Lines) :
    (turns.foldl (clearTurn task) l).reg = Lib.updateWhere (fun r => r.active && r.task == task)
        (fun r => { r with active := false }) turns l.reg := by
  induction turns generalizing l with
  | nil => rfl
  | cons i _ ih =>
  rw [List.foldl_cons, ih]
  symm
  by_cases hHere : (l.reg i).active = true ∧ (l.reg i).task = task
  · rw [clearTurn, if_pos hHere]
    exact if_pos (by simp [hHere])
  · rw [clearTurn, if_neg hHere]
    exact if_neg (by simpa using hHere)

/- What is left is what other tasks have registered. -/
theorem irqNotifyClearTask_active (hLine : line < irqNotifyMax)
    (hActive : ((irqNotifyClearTask l task).reg line).active = true) :
    (irqNotifyClearTask l task).reg line = l.reg line ∧ (l.reg line).task ≠ task := by
  have hReg := congrFun (clearTurns_reg task (List.range irqNotifyMax) l) line
  rw [Lib.updateWhere_apply _ _ (by intros; rfl)] at hReg
  unfold irqNotifyClearTask at hActive ⊢
  rw [hReg] at hActive ⊢
  split at hActive
  · cases hActive
  rename_i hOther
  rw [if_neg hOther]
  refine ⟨rfl, fun hTask => hOther ?_⟩
  simp [hLine, hActive, hTask]

/- A line is unmasked by its registrant. -/
theorem Masks.unmask {reg : Nat → IrqReg} (hMasks : l.Masks fired)
    (hSingle : irq < 8 ∨ l.chip.isIoapic = true) (hActive : (reg irq).active = true)
    (hReg : ∀ line, line ≠ irq → reg line = l.reg line) : Masks ⟨reg, l.chip.setMasked irq false⟩
      (update fired irq false) := by
  intro line hLow hHigh hOpen
  rcases eq_or_ne line irq with rfl | hEq
  · exact ⟨hActive, update_self _ _ _⟩
  dsimp only at hOpen ⊢
  rw [update_of_ne hEq, hReg line hEq]
  exact hMasks line hLow hHigh (IrqChip.unmasked_setMasked_of_ne hEq (.inr hSingle) hOpen)

theorem Masks.interrupt (hRouted : l.chip.Routed) (hMasks : l.Masks fired) (line : Nat) :
    (l.interrupt line).chip.Routed ∧ (l.interrupt line).Masks (update fired line true) := by
  unfold Lines.interrupt
  split
  · exact ⟨hRouted.setMasked line true,
      hMasks.mask hRouted (fun _ _ => rfl) fun _ hNe => update_of_ne hNe _ _⟩
  · rename_i hIdle
    refine ⟨hRouted, ?_⟩
    intro other hLow hHigh hOpen
    have hOld := hMasks other hLow hHigh hOpen
    rcases eq_or_ne other line with rfl | hEq
    · exact absurd ⟨hLow, hOld.1⟩ hIdle
    · rw [update_of_ne hEq]
      exact hOld

end Lines

----
-- Messages
----

namespace Messages

/- One vector for each device, and it keeps it. -/
structure Apart (m : Messages) : Prop where
  bound : ∀ i, (m.routes i).inUse = true → i < msiVectorCount
  one : ∀ i j, (m.routes i).inUse = true → (m.routes j).inUse = true →
    (m.routes i).devindex = (m.routes j).devindex → i = j
  routed : ∀ i, (m.routes i).inUse = true →
    m.programmed (m.routes i).devindex = some (msiVectorBase + i)
  programmed : ∀ d vector, m.programmed d = some vector → ∃ i, vector = msiVectorBase + i ∧
      (m.routes i).inUse = true ∧ (m.routes i).devindex = d

theorem routeFor_some {i : Nat} (hApart : m.Apart) (hRoute : m.routeFor devindex = some i) :
    i < msiVectorCount ∧ ((m.routes i).inUse = false ∨ (m.routes i).devindex = devindex) ∧
      ∀ j, (m.routes j).inUse = true → (m.routes j).devindex = devindex → j = i := by
  unfold routeFor at hRoute
  split at hRoute
  · rename_i k hOld
    cases hRoute
    have hFound := firstIndex_some hOld
    simp only [Bool.and_eq_true, beq_iff_eq] at hFound
    refine ⟨hFound.2, .inr hFound.1.2, ?_⟩
    intro j hUsed hDevice
    exact hApart.one j _ hUsed hFound.1.1 (hDevice.trans hFound.1.2.symm)
  · rename_i hNone
    have hFound := firstIndex_some hRoute
    simp only [Bool.not_eq_true'] at hFound
    refine ⟨hFound.2, .inl hFound.1, ?_⟩
    intro j hUsed hDevice
    exfalso
    unfold firstIndex at hNone
    rw [List.find?_eq_none] at hNone
    apply hNone j (List.mem_range.mpr (hApart.bound j hUsed))
    simp [hUsed, hDevice]

theorem Apart.msiRegister {m' : Messages} (hApart : m.Apart) {d : IoDevice} {notif : Nat}
    (hDone : msiRegister m d devindex task notif badge = some m') :
    m'.Apart ∧ ∃ i, m'.routes = update m.routes i ⟨true, devindex, some task, notif, badge⟩ := by
  unfold Device.msiRegister at hDone
  split at hDone
  · cases hDone
  split at hDone
  · cases hDone
  rename_i i hRoute
  cases hDone
  rcases routeFor_some hApart hRoute with ⟨hBound, hOurs, hOnly⟩
  refine ⟨?_, i, rfl⟩
  constructor
  · intro j hUsed
    rcases eq_or_ne j i with rfl | hEq
    · exact hBound
    · dsimp only at hUsed
      rw [update_of_ne hEq] at hUsed
      exact hApart.bound j hUsed
  · intro j k hJ hK hSame
    dsimp only at hJ hK hSame
    by_cases hEqJ : j = i
    · by_cases hEqK : k = i
      · rw [hEqJ, hEqK]
      subst hEqJ
      rw [update_of_ne hEqK] at hK hSame
      rw [update_self] at hSame
      exact (hOnly k hK hSame.symm).symm
    · rcases eq_or_ne k i with rfl | hEqK
      · rw [update_of_ne hEqJ] at hJ hSame
        rw [update_self] at hSame
        exact hOnly j hJ hSame
      · rw [update_of_ne hEqJ] at hJ hSame
        rw [update_of_ne hEqK] at hK hSame
        exact hApart.one j k hJ hK hSame
  · intro j hUsed
    dsimp only at hUsed ⊢
    rcases eq_or_ne j i with rfl | hEq
    · simp
    rw [update_of_ne hEq] at hUsed ⊢
    have hNe : (m.routes j).devindex ≠ devindex := fun hDevice => hEq (hOnly j hUsed hDevice)
    rw [update_of_ne hNe]
    exact hApart.routed j hUsed
  · intro dev vector hVector
    dsimp only at hVector ⊢
    rcases eq_or_ne dev devindex with rfl | hEq
    · rw [update_self] at hVector
      refine ⟨i, (Option.some.inj hVector).symm, ?_, ?_⟩ <;> rw [update_self]
    rw [update_of_ne hEq] at hVector
    rcases hApart.programmed dev vector hVector with ⟨j, hAt, hUsed, hDevice⟩
    have hNe : j ≠ i := by
      rintro rfl
      rcases hOurs with hFree | hOld
      · rw [hUsed] at hFree
        cases hFree
      · exact hEq (hDevice.symm.trans hOld)
    refine ⟨j, hAt, ?_, ?_⟩ <;> rwa [update_of_ne hNe]

theorem msiClearTask_routes (m : Messages) (task i : Nat) : (msiClearTask m task).routes i =
      if i < msiVectorCount ∧ (m.routes i).inUse = true ∧ (m.routes i).task = some task then
        { m.routes i with task := none }
      else m.routes i := by
  unfold msiClearTask
  dsimp only
  rw [Lib.updateWhere_apply _ _ (by intros; rfl)]
  simp only [List.mem_range, Bool.and_eq_true, beq_iff_eq]

theorem Apart.msiClearTask (hApart : m.Apart) (task : Nat) : (msiClearTask m task).Apart := by
  have hSame : ∀ i, ((Device.msiClearTask m task).routes i).inUse = (m.routes i).inUse ∧
        ((Device.msiClearTask m task).routes i).devindex = (m.routes i).devindex := by
    intro i
    rw [msiClearTask_routes]
    split <;> exact ⟨rfl, rfl⟩
  constructor
  · intro i hUsed
    rw [(hSame i).1] at hUsed
    exact hApart.bound i hUsed
  · intro i j hI hJ hEq
    rw [(hSame i).1] at hI
    rw [(hSame j).1] at hJ
    rw [(hSame i).2, (hSame j).2] at hEq
    exact hApart.one i j hI hJ hEq
  · intro i hUsed
    rw [(hSame i).1] at hUsed
    rw [(hSame i).2]
    exact hApart.routed i hUsed
  · intro d vector hVector
    rcases hApart.programmed d vector hVector with ⟨i, hAt, hUsed, hDevice⟩
    exact ⟨i, hAt, (hSame i).1.trans hUsed, (hSame i).2.trans hDevice⟩

end Messages

----
-- The Invariant
----

/- The object stays at the index of a notification. -/
def Holds (s : Store) (n named : Nat) : Prop :=
  n < notifIndexMax ∧ (dynNotifBase ≤ n → s.Settled .notification (n - dynNotifBase) ∧
        s.ids .notification (n - dynNotifBase) = named)

/- A registration in force of the task `t`. -/
structure HwState.InForce (devices : Nat → Option IoDevice) (s : HwState) (r : Registration)
    (t n : Nat) (badge : BitVec 32) : Prop where
  logged : r ∈ s.log
  task : r.task = t
  alive : s.store.sys.cap.running t = true
  begun : s.begun t = false
  life : s.life t = r.life
  badge : r.badge = badge
  index : r.notif.object = n
  entitles : Entitles devices r
  holds : Holds s.store n r.named

/- A call between its lookups and its effect. -/
structure HwState.Asked (devices : Nat → Option IoDevice) (s : HwState) (t : Nat) (ask : Ask) : Prop
    where
  call : s.store.inCall t = true
  task : t < s.store.sys.cap.maxTasks
  life : ask.life = s.life t
  device : ask.device.typ = .ioDevice
  deviceWrite : hasRights ask.device.rights Right.write = true
  declares : ∃ d, devices ask.device.object = some d ∧ d.allows ask.wish = true
  notif : s.begun t = false → ∀ c named, ask.notif = some (c, named) → c.typ = .notification ∧
        hasRights c.rights Right.write = true ∧ Holds s.store c.object named

structure HwSound (devices : Nat → Option IoDevice) (s : HwState) : Prop where
  store : s.store.Sound
  calls : ∀ t, s.store.inCall t = true → s.begun t = false → s.store.sys.cap.running t = true
  asks : ∀ t ask, s.asking t = some ask → s.Asked devices t ask
  regs : ∀ line, (s.lines.reg line).active = true → line < irqNotifyMax ∧
      ∃ r, s.InForce devices r (s.lines.reg line).task
        (s.lines.reg line).slot (s.lines.reg line).badge ∧ r.wish = .line line
  routes : ∀ i t, (s.messages.routes i).inUse = true → (s.messages.routes i).task = some t →
      ∃ r, s.InForce devices r t (s.messages.routes i).notif
        (s.messages.routes i).badge ∧ r.wish = .message ∧
        r.device.object = (s.messages.routes i).devindex
  apart : s.messages.Apart
  routed : s.lines.chip.Routed
  masks : s.lines.Masks s.fired

variable {s s' : HwState}

namespace HwState

/- What a registration in force rests on. -/
structure Carries (s s' : HwState) (t n : Nat) : Prop where
  logged : ∀ r ∈ s.log, r ∈ s'.log
  alive : s.store.sys.cap.running t = true → s'.store.sys.cap.running t = true
  begun : s'.begun t = s.begun t
  life : s'.life t = s.life t
  holds : ∀ named, Holds s.store n named → Holds s'.store n named

theorem InForce.carry (hForce : s.InForce devices r t n badge)
    (hCarries : s.Carries s' t n) : s'.InForce devices r t n badge where
  logged := hCarries.logged r hForce.logged
  __ := hForce
  alive := hCarries.alive hForce.alive
  begun := hCarries.begun.trans hForce.begun
  life := hCarries.life.trans hForce.life
  holds := hCarries.holds _ hForce.holds

/- A registration in force is a good reason for a signal. -/
theorem InForce.backs (hForce : s.InForce devices r t n badge) : s.Backs devices r n badge where
  __ := hForce
  alive := by rw [hForce.task]; exact hForce.alive
  life := by rw [hForce.task]; exact hForce.life
  denotes := by
    have hHolds := hForce.holds
    rw [← hForce.index] at hHolds
    constructor
    · unfold notifThere
      by_cases hStatic : r.notif.object < maxNotifications
      · simp [hStatic]
      · have hDyn := hHolds.2 (Nat.le_of_not_lt hStatic)
        simp [hHolds.1, hDyn.1.1]
    · intro cls i hName
      unfold Capability.dynName dynEntry at hName
      rw [hForce.entitles.notif] at hName
      simp only [capClass] at hName
      split at hName
      · rename_i hRange
        cases hName
        exact (hHolds.2 hRange.1).2
      · cases hName

end HwState

/- The property is what the invariant says about signals. -/
theorem HwSound.safe (hSound : HwSound devices s) : InterruptsSafe devices s where
  lines := by
    intro line n badge hSignal
    unfold lineSignal at hSignal
    split at hSignal
    · rename_i hActive
      cases hSignal
      rcases (hSound.regs line hActive.2).2 with ⟨r, hForce, hWish⟩
      exact ⟨r, hForce.backs, hWish⟩
    · cases hSignal
  messages := by
    intro vector n badge hSignal
    unfold vectorSignal at hSignal
    dsimp only at hSignal
    split at hSignal
    · cases hSignal
    rename_i hVector
    split at hSignal
    · cases hSignal
    rename_i hRoute
    cases hSignal
    simp only [not_or, Bool.not_eq_false] at hRoute hVector
    rcases Option.ne_none_iff_exists'.mp hRoute.2 with ⟨t, hTask⟩
    rcases hSound.routes _ t hRoute.1 hTask with ⟨r, hForce, hWish, hDevice⟩
    refine ⟨r, hForce.backs, hWish, ?_⟩
    rw [hDevice, hSound.apart.routed _ hRoute.1]
    congr 1
    omega
  vectors := by
    intro d d' vector hD hD'
    rcases hSound.apart.programmed d vector hD with ⟨i, hAt, _, hDevice⟩
    rcases hSound.apart.programmed d' vector hD' with ⟨j, hAt', _, hDevice'⟩
    obtain rfl : i = j := by omega
    exact hDevice.symm.trans hDevice'
  masks := by
    intro line hLow hHigh hOpen
    have hMask := hSound.masks line hLow hHigh hOpen
    refine ⟨?_, hMask.2⟩
    unfold lineSignal
    rw [if_pos ⟨(hSound.regs line hMask.1).1, hMask.1⟩]
    rfl

----
-- Calls
----

theorem capLookup_found {typ : CapType} {required : Rights}
    (hFound : capLookup c t slot (some typ) required = some a) :
    (c.mem a).typ = typ ∧ hasRights (c.mem a).rights required = true := by
  unfold capLookup at hFound
  split at hFound
  · cases hFound
  have hTyped := rustCapLookupTyped_eq_some hFound
  have hLookup := hTyped.1
  rw [rustCapLookup_eq_some_iff] at hLookup
  exact ⟨hTyped.2 typ rfl, hLookup.2.2.2.2.2.1⟩

/- `ipc_notif_from_slot` by a task that runs. -/
theorem capLookupIpcObject_found (hTables : Tables c) (hRun : c.running t = true)
    (hFound : capLookupIpcObject c t slot .notification Right.write notifIndexMax = some n)
    (hSlot : c.slotOf t slot = some a) : c.Visible a ∧ (c.mem a).typ = .notification ∧
      hasRights (c.mem a).rights Right.write = true ∧ (c.mem a).object = n ∧ n < notifIndexMax := by
  rcases hTables.running_cspace hRun with ⟨space, hSpace, _⟩
  simp only [CapState.slotOf, hSpace, Option.map_some, Option.some.injEq] at hSlot
  unfold capLookupIpcObject at hFound
  split at hFound
  · cases hFound
  rename_i space' size hCur
  unfold rustIpcObjectFromSlot at hFound
  split at hFound
  · cases hFound
  rename_i b hTyped
  split at hFound
  · rename_i hMax
    cases hFound
    have hLook : capLookup c t slot (some .notification) Right.write = some b := by
      rw [capLookup, hCur]
      exact hTyped
    rcases hTables.capLookup_eq_some hRun hLook with ⟨hOwns, hAt, _, _, hRights, hTyp⟩
    obtain rfl : a = b := by
      rw [← hSlot]
      have hEq := Option.some.inj (hSpace.symm.trans hOwns.space)
      cases b
      simp only at hEq hAt
      rw [hEq, hAt]
    exact ⟨(hTables.visible_iff a).mpr ⟨hOwns.slot, .inr
      ⟨t, hRun, hOwns.space⟩⟩, hTyp _ rfl, hRights, rfl, hMax⟩
  · cases hFound

namespace HwSound

variable {s : HwState} (hSound : HwSound devices s)

include hSound

/- A step of the registrations, and of nothing below them. -/
theorem update {lines : Lines} {messages : Messages} {asking : Nat → Option Ask}
    {log : List Registration} (hLog : ∀ r ∈ s.log, r ∈ log)
    (hAsking : ∀ t ask, asking t = some ask → s.asking t = some ask ∨ s.Asked devices t ask)
    (hRegs : ∀ line, (lines.reg line).active = true →
      lines.reg line = s.lines.reg line ∨ (line < irqNotifyMax ∧
          ∃ r, { s with log := log }.InForce devices r (lines.reg line).task (lines.reg line).slot
            (lines.reg line).badge ∧ r.wish = .line line))
    (hRoutes : ∀ i t, (messages.routes i).inUse = true → (messages.routes i).task = some t →
      messages.routes i = s.messages.routes i ∨
        ∃ r, { s with log := log }.InForce devices r t (messages.routes i).notif
          (messages.routes i).badge ∧ r.wish = .message ∧
          r.device.object = (messages.routes i).devindex)
    (hApart : messages.Apart) (hRouted : lines.chip.Routed) (hMasks : lines.Masks fired) :
    HwSound devices { s with lines, messages, asking, fired, log } where
  store := hSound.store
  calls := hSound.calls
  asks := by
    intro t ask hAsk
    have hOld : s.Asked devices t ask := (hAsking t ask hAsk).elim (hSound.asks t ask) id
    exact { hOld with }
  regs := by
    intro line hActive
    dsimp only at hActive ⊢
    rcases hRegs line hActive with hSame | ⟨hLine, r, hForce, hWish⟩
    · rw [hSame] at hActive ⊢
      rcases hSound.regs line hActive with ⟨hLine, r, hForce, hWish⟩
      exact ⟨hLine, r, { hForce with logged := hLog r hForce.logged }, hWish⟩
    · exact ⟨hLine, r, { hForce with }, hWish⟩
  routes := by
    intro i t hUsed hTask
    dsimp only at hUsed hTask ⊢
    rcases hRoutes i t hUsed hTask with hSame | ⟨r, hForce, hRest⟩
    · rw [hSame] at hUsed hTask ⊢
      rcases hSound.routes i t hUsed hTask with ⟨r, hForce, hRest⟩
      exact ⟨r, { hForce with logged := hLog r hForce.logged }, hRest⟩
    · exact ⟨r, { hForce with }, hRest⟩
  apart := hApart
  routed := hRouted
  masks := hMasks

theorem setAsking (t : Nat) (x : Option Ask)
    (hAsked : ∀ ask, x = some ask → s.Asked devices t ask) : HwSound devices
      { s with asking := Function.update s.asking t x } := by
  refine hSound.update (fun _ => id) ?_
    (fun _ _ => .inl rfl) (fun _ _ _ _ => .inl rfl)
    hSound.apart hSound.routed hSound.masks
  intro t' ask hAsk
  rcases eq_or_ne t' t with rfl | hEq
  · rw [update_self] at hAsk
    exact .inr (hAsked ask hAsk)
  · rw [update_of_ne hEq] at hAsk
    exact .inl hAsk

theorem lookDevice (hCall : s.store.inCall t = true)
    (devSlot : Nat) (wish : Wish) (notifSlot : Nat) (badge : BitVec 32) : HwSound devices
      (s.lookDevice devices t devSlot wish notifSlot badge) := by
  unfold HwState.lookDevice
  split
  · exact hSound
  split
  · exact hSound
  rename_i a hFound
  dsimp only
  split
  · exact hSound
  rename_i d hDevice
  split
  · rename_i hAllows
    apply hSound.setAsking
    intro ask hAsk
    cases hAsk
    rcases capLookup_found hFound with ⟨hTyp, hRights⟩
    exact
      { call := hCall
        task := by omega
        life := rfl
        device := hTyp
        deviceWrite := hRights
        declares := ⟨d, hDevice, hAllows⟩
        notif := by
          intro _ c named hNone
          cases hNone }
  · exact hSound

/- The capability is for what its index holds. -/
theorem holds_of_visible (hVisible : s.store.sys.cap.Visible a)
    (hTyp : (s.store.sys.cap.mem a).typ = .notification)
    (hMax : (s.store.sys.cap.mem a).object < notifIndexMax) :
    Holds s.store (s.store.sys.cap.mem a).object (s.store.named a) := by
  refine ⟨hMax, fun hDyn => ?_⟩
  have hName : (s.store.sys.cap.mem a).dynName = some (.notification,
        (s.store.sys.cap.mem a).object - dynNotifBase) := by
    unfold Capability.dynName dynEntry
    rw [hTyp]
    exact if_pos ⟨hDyn, hMax⟩
  have hNames := hSound.store.names a _ _ hVisible hName
  exact ⟨hSound.store.settled_of_named ⟨a, hVisible, hName⟩, hNames.2.1⟩

theorem lookNotif (hAsk : s.asking t = some ask) : HwSound devices (s.lookNotif t ask) := by
  have hAsked := hSound.asks t ask hAsk
  have hFails : HwSound devices { s with asking := Function.update s.asking t none } :=
    hSound.setAsking t none fun _ hNone => by cases hNone
  unfold HwState.lookNotif
  dsimp only
  split
  · rename_i n a hFound hSlot
    split
    · apply hSound.setAsking
      intro ask' hNew
      cases hNew
      exact
        { hAsked with
          notif := by
            intro hBegun c named hSome
            cases hSome
            have hRun := hSound.calls t hAsked.call hBegun
            rcases capLookupIpcObject_found hSound.store.tables hRun hFound hSlot with
              ⟨hVisible, hTyp, hRights, hObject, hMax⟩
            rw [← hObject] at hMax
            exact ⟨hTyp, hRights, hSound.holds_of_visible hVisible hTyp hMax⟩ }
    · exact hFails
  · exact hFails

/- The registration that a call is about to make. -/
theorem inForce_of_asked (hAsk : s.asking t = some ask) (hBegun : s.begun t = false)
    {c : Capability} {named : Nat} {log : List Registration} (hNotif : ask.notif = some (c, named))
    (hLogged : registration t ask c named ∈ log) :
    { s with log := log }.InForce devices (registration t ask c named) t c.object ask.badge := by
  have hAsked := hSound.asks t ask hAsk
  rcases hAsked.notif hBegun c named hNotif with ⟨hTyp, hRights, hHolds⟩
  exact
    { logged := hLogged
      task := rfl
      alive := hSound.calls t hAsked.call hBegun
      begun := hBegun
      life := hAsked.life.symm
      badge := rfl
      index := rfl
      entitles := { hAsked with notif := hTyp, notifWrite := hRights }
      holds := hHolds }

theorem apply (hAsk : s.asking t = some ask) (hC : Careful s (.apply t)) :
    HwSound devices (s.applyAsk devices t ask) := by
  have hDone : HwSound devices { s with asking := Function.update s.asking t none } :=
    hSound.setAsking t none fun _ hNone => by cases hNone
  have hAsking : ∀ t' ask', Function.update s.asking t none t' = some ask' →
        s.asking t' = some ask' ∨ s.Asked devices t' ask' := by
    intro t' ask' hSome
    left
    rcases eq_or_ne t' t with rfl | hEq
    · rw [update_self] at hSome
      cases hSome
    · rwa [update_of_ne hEq] at hSome
  simp only [Careful, hAsk, Option.map_some] at hC
  unfold applyAsk
  split
  · rename_i irq _ hWish
    simp only [hWish] at hC
    split
    · exact hDone
    rename_i lines hAck
    unfold irqNotifyAck at hAck
    split at hAck
    · cases hAck
    rename_i hRange
    split at hAck
    · cases hAck
    rename_i hOwner
    cases hAck
    simp only [not_or, Bool.not_eq_false] at hOwner hRange
    refine hSound.update (fun _ => id) hAsking
      (fun _ _ => .inl rfl) (fun _ _ _ _ => .inl rfl)
      hSound.apart (hSound.routed.setMasked _ _) ?_
    refine hSound.masks.unmask ?_ hOwner.1 (fun _ _ => rfl)
    exact hC.imp (fun hLow => by omega) id
  · rename_i irq c named hWish hNotif
    simp only [hWish] at hC
    split
    · exact hDone
    rename_i lines hRegister
    unfold irqNotifyRegister at hRegister
    split at hRegister
    · cases hRegister
    rename_i hRange
    cases hRegister
    simp only [not_or, not_lt, not_le] at hRange
    refine hSound.update (fun _ => List.mem_cons_of_mem _) hAsking ?_
      (fun _ _ _ _ => .inl rfl) hSound.apart
      (hSound.routed.setMasked _ _) ?_
    · intro line _
      dsimp only
      rcases eq_or_ne line irq.toNat with rfl | hEq
      · right
        rw [update_self]
        refine ⟨by omega, _, hSound.inForce_of_asked hAsk hC.1 hNotif List.mem_cons_self, ?_⟩
        rw [registration, hWish, Int.toNat_of_nonneg hRange.1]
      · left
        exact update_of_ne hEq _ _
    · refine hSound.masks.unmask ?_ ?_ ?_
      · exact hC.2.imp (fun hLow => by omega) id
      · rw [update_self]
      · intro line hNe
        exact update_of_ne hNe _ _
  · rename_i c named hWish hNotif
    simp only [hWish] at hC
    split
    · exact hDone
    split
    · exact hDone
    rename_i messages hRegister
    rcases hSound.apart.msiRegister hRegister with ⟨hApart, i, hRoutes⟩
    refine hSound.update (fun _ => List.mem_cons_of_mem _) hAsking
      (fun _ _ => .inl rfl) ?_ hApart hSound.routed
      hSound.masks
    intro j t' _ hTask
    rw [hRoutes] at hTask ⊢
    rcases eq_or_ne j i with rfl | hEq
    · rw [update_self] at hTask ⊢
      cases hTask
      right
      exact ⟨_, hSound.inForce_of_asked hAsk hC hNotif List.mem_cons_self, hWish, rfl⟩
    · left
      exact update_of_ne hEq _ _
  · exact hDone

theorem interrupt (line : Nat) : HwSound devices
      { s with lines := s.lines.interrupt line, fired := Function.update s.fired line true } := by
  have hMasks := hSound.masks.interrupt hSound.routed line
  refine hSound.update (fun _ => id) (fun _ _ => .inl) ?_ (fun _ _ _ _ => .inl rfl) hSound.apart
    hMasks.1 hMasks.2
  intro other _
  left
  dsimp only [Lines.interrupt]
  split <;> rfl

/- Nothing is left of what the task has registered. -/
theorem clear (t : Nat) : HwSound devices
      { s with
        lines := irqNotifyClearTask s.lines t
        messages := msiClearTask s.messages t
        begun := Function.update s.begun t true } := by
  have hMasks := hSound.masks.irqNotifyClearTask hSound.routed t
  have hBegun : ∀ t', Function.update s.begun t true t' = false → t' ≠ t ∧ s.begun t' = false := by
    intro t' hFalse
    rcases eq_or_ne t' t with rfl | hEq
    · rw [update_self] at hFalse
      cases hFalse
    · rw [update_of_ne hEq] at hFalse
      exact ⟨hEq, hFalse⟩
  have hCarries : ∀ t' n, t' ≠ t → s.Carries
      { s with
        lines := irqNotifyClearTask s.lines t
        messages := msiClearTask s.messages t
        begun := Function.update s.begun t true } t' n :=
    fun t' n hOther => ⟨fun _ => id, id, update_of_ne hOther _ _, rfl, fun _ => id⟩
  exact
    { store := hSound.store
      calls := by
        intro t' hCall hFalse
        exact hSound.calls t' hCall (hBegun t' hFalse).2
      asks := by
        intro t' ask hAsk
        have hOld := hSound.asks t' ask hAsk
        exact { hOld with notif := fun hFalse => hOld.notif (hBegun t' hFalse).2 }
      regs := by
        intro line hActive
        have hLine : line < irqNotifyMax := by
          by_contra hBeyond
          dsimp only [irqNotifyClearTask] at hActive
          rw [Lines.clearTurns_reg, Lib.updateWhere_apply _ _ (by intros; rfl),
            if_neg (by simp [hBeyond])] at hActive
          exact hBeyond (hSound.regs line hActive).1
        rcases Lines.irqNotifyClearTask_active hLine hActive with ⟨hSame, hOther⟩
        rw [hSame] at hActive ⊢
        rcases (hSound.regs line hActive).2 with ⟨r, hForce, hWish⟩
        exact ⟨hLine, r, hForce.carry (hCarries _ _ hOther), hWish⟩
      routes := by
        intro i t' hUsed hTask
        rw [Messages.msiClearTask_routes] at hUsed hTask ⊢
        split at hTask
        · cases hTask
        rename_i hKept
        rw [if_neg hKept] at hUsed ⊢
        have hOther : t' ≠ t := by
          rintro rfl
          exact hKept ⟨hSound.apart.bound i hUsed, hUsed, hTask⟩
        rcases hSound.routes i t' hUsed hTask with ⟨r, hForce, hRest⟩
        exact ⟨r, hForce.carry (hCarries _ _ hOther), hRest⟩
      apart := hSound.apart.msiClearTask t
      routed := hMasks.1
      masks := hMasks.2 }

end HwSound

----
-- Sections of the Store
----

theorem reusable_of_creates {s : Store}
    (hEnabled : storeEnabled s op = true) (hCreates : op.creates = some t) :
    s.reusable t = true := by
  cases op with
  | call op =>
    cases op with cases hCreates
    | createTask | spawnAborted => exact hEnabled
    | fork =>
      simp only [storeEnabled, callEnabled, Bool.and_eq_true] at hEnabled
      exact hEnabled.2
  | _ => cases hCreates

theorem hwExec_store_rest (mcfg : MemConfig) (devices : Nat → Option IoDevice) (s : HwState)
    (op : StoreOp) : (hwExec mcfg devices s (.store op)).lines = s.lines ∧
      (hwExec mcfg devices s (.store op)).messages = s.messages ∧
      (hwExec mcfg devices s (.store op)).asking = s.asking ∧
      (hwExec mcfg devices s (.store op)).fired = s.fired ∧
      (hwExec mcfg devices s (.store op)).log = s.log := by
  simp only [hwExec, reborn]
  split <;> exact ⟨rfl, rfl, rfl, rfl, rfl⟩

theorem HwState.reborn_of_ne (hCreates : op.creates ≠ some t) : (s.reborn op).begun t = s.begun t ∧
      (s.reborn op).life t = s.life t := by
  unfold reborn
  split
  · exact ⟨rfl, rfl⟩
  rename_i id hId
  have hNe : t ≠ id := by
    rintro rfl
    exact hCreates hId
  exact ⟨update_of_ne hNe _ _, update_of_ne hNe _ _⟩

theorem hwEnabled_store (hEnabled : hwEnabled s (.store op) = true) :
    storeEnabled s.store op = true ∧ (∀ t, op = .leave t → s.asking t = none) ∧
      ∀ t, op = .die t → s.begun t = true := by
  cases op with
  | leave =>
    simp only [hwEnabled, Bool.and_eq_true, Option.isNone_iff_eq_none] at hEnabled
    refine ⟨hEnabled.1, ?_, by rintro t' ⟨⟩⟩
    rintro t' ⟨⟩
    exact hEnabled.2
  | die =>
    simp only [hwEnabled, Bool.and_eq_true] at hEnabled
    refine ⟨hEnabled.1, by rintro t' ⟨⟩, ?_⟩
    rintro t' ⟨⟩
    exact hEnabled.2
  | _ => exact ⟨hEnabled, by rintro t ⟨⟩, by rintro t ⟨⟩⟩

namespace HwSound

variable {s : HwState} (hSound : HwSound devices s)

/- A live task keeps its slot. -/
theorem running_store (mcfg : MemConfig) (hEnabled : hwEnabled s (.store op) = true)
    (hAlive : s.store.sys.cap.running t = true) (hBegun : s.begun t = false) :
    op.creates ≠ some t ∧ (storeExec mcfg s.store op).sys.cap.running t = true := by
  rcases hwEnabled_store hEnabled with ⟨hStore, _, hDie⟩
  have hCreates : op.creates ≠ some t := by
    intro hSome
    have hFree := reusable_of_creates hStore hSome
    simp only [Store.reusable, CapState.freeSlot, Bool.and_eq_true, decide_eq_true_eq] at hFree
    simp only [CapState.running, decide_eq_true_eq] at hAlive
    exact hAlive.2 hFree.1.1.2.2
  have hLives : op ≠ .die t := by
    intro hEq
    rw [hDie t hEq] at hBegun
    cases hBegun
  have hTask := storeExec_tasks mcfg hStore hCreates hLives
  refine ⟨hCreates, ?_⟩
  rw [CapState.running, hTask.1, hTask.2]
  exact hAlive

theorem carries_store (mcfg : MemConfig) (hEnabled : hwEnabled s (.store op) = true)
    (hC : Careful s (.store op)) (hAlive : s.store.sys.cap.running t = true)
    (hBegun : s.begun t = false) (hWatched : s.Watched n) :
    s.Carries (hwExec mcfg devices s (.store op)) t n := by
  have hKept := running_store mcfg hEnabled hAlive hBegun
  have hReborn := reborn_of_ne (s := s) hKept.1
  constructor
  · rw [(hwExec_store_rest mcfg devices s op).2.2.2.2]
    exact fun _ => id
  · exact fun _ => hKept.2
  · exact hReborn.1
  · exact hReborn.2
  rintro named ⟨hMax, hHeld⟩
  refine ⟨hMax, fun hDyn => ?_⟩
  have hIndex : n - dynNotifBase <
      KobjClass.notification.maxDyn := by
    change n < dynNotifBase + 256 at hMax
    change n - dynNotifBase < 256
    omega
  have hFinds : ∀ x, sweepsFrom s.store op = some x → x.Finds .notification (n - dynNotifBase) := by
    intro x hSweeps
    have hSpares := hC.2
    simp only [Spares, hSweeps] at hSpares
    apply hSpares _ hIndex
    rw [Nat.add_sub_cancel' hDyn]
    exact hWatched
  have hStays := (hHeld hDyn).1.step mcfg op hIndex hFinds
  exact ⟨⟨hStays.alive, hStays.making⟩, hStays.same.trans (hHeld hDyn).2⟩

include hSound

theorem storeStep (mcfg : MemConfig) (hEnabled : hwEnabled s (.store op) = true)
    (hC : Careful s (.store op)) : HwSound devices (hwExec mcfg devices s (.store op)) := by
  rcases hwEnabled_store hEnabled with ⟨hStore, hLeave, _⟩
  rcases hwExec_store_rest mcfg devices s op with ⟨hLines, hMessages, hAsking, hFired, _⟩
  have hReusable : ∀ t, op.creates = some t → s.store.inCall t = false := by
    intro t hSome
    have hFree := reusable_of_creates hStore hSome
    simp only [Store.reusable, Bool.and_eq_true, Bool.not_eq_true'] at hFree
    exact hFree.2
  -- a call that is going on was there before the section
  have hCalls : ∀ t, (storeExec mcfg s.store op).inCall t = true → op = .enter t ∨
        (s.store.inCall t = true ∧ op.creates ≠ some t) := by
    intro t hCall
    by_cases hEnter : op = .enter t
    · exact .inl hEnter
    right
    have hBefore : s.store.inCall t = true := by
      by_cases hLeft : op = .leave t
      · subst hLeft
        simp only [storeExec, update_self] at hCall
        cases hCall
      · rwa [storeExec_inCall mcfg s.store op t hEnter hLeft] at hCall
    refine ⟨hBefore, fun hSome => ?_⟩
    rw [hReusable t hSome] at hBefore
    cases hBefore
  have hCarries : ∀ t n, s.store.sys.cap.running t = true → s.begun t = false → s.Watched n →
      s.Carries (hwExec mcfg devices s (.store op)) t n :=
    fun t n hAlive hBegun hWatched => carries_store mcfg hEnabled hC hAlive hBegun hWatched
  exact
    { store := hSound.store.step mcfg hStore hC.1
      calls := by
        intro t hCall hBegun
        rcases hCalls t hCall with rfl | ⟨hBefore, hCreates⟩
        · simp only [storeEnabled, Bool.and_eq_true] at hStore
          exact hStore.1
        have hOld : s.begun t = false := (reborn_of_ne hCreates).1.symm.trans hBegun
        exact (running_store mcfg hEnabled (hSound.calls t hBefore hOld) hOld).2
      asks := by
        intro t ask hAsk
        rw [hAsking] at hAsk
        have hOld := hSound.asks t ask hAsk
        have hCreates : op.creates ≠ some t := by
          intro hSome
          have hCall := hOld.call
          rw [hReusable t hSome] at hCall
          cases hCall
        have hReborn := reborn_of_ne (s := s) hCreates
        have hStays : (storeExec mcfg s.store op).inCall t =
            true := by
          by_cases hEnter : op = .enter t
          · subst hEnter
            exact update_self _ _ _
          rw [storeExec_inCall mcfg s.store op t hEnter]
          · exact hOld.call
          · intro hEq
            rw [hLeave t hEq] at hAsk
            cases hAsk
        exact
          { hOld with
            call := hStays
            task := by
              have hTask := hOld.task
              rwa [← storeExec_maxTasks mcfg hStore] at hTask
            life := hOld.life.trans hReborn.2.symm
            notif := by
              intro hBegun c named hNotif
              have hNow := hReborn.1.symm.trans hBegun
              rcases hOld.notif hNow c named hNotif with ⟨hTyp, hRights, hHolds⟩
              refine ⟨hTyp, hRights, ?_⟩
              have hAlive := hSound.calls t hOld.call hNow
              refine (hCarries t c.object hAlive hNow ?_).holds named hHolds
              refine .inr (.inr ⟨t, hOld.task, hNow, ?_⟩)
              simp [hAsk, hNotif] }
      regs := by
        intro line hActive
        rw [hLines] at hActive ⊢
        rcases hSound.regs line hActive with ⟨hLine, r, hForce, hWish⟩
        exact ⟨hLine, r, hForce.carry (hCarries _ _ hForce.alive
          hForce.begun (.inl ⟨line, hLine, hActive, rfl⟩)),
          hWish⟩
      routes := by
        intro i t hUsed hTask
        rw [hMessages] at hUsed hTask ⊢
        rcases hSound.routes i t hUsed hTask with ⟨r, hForce, hWish⟩
        have hNone : (s.messages.routes i).task ≠ none := by
          rw [hTask]
          exact Option.some_ne_none t
        exact ⟨r, hForce.carry (hCarries _ _ hForce.alive hForce.begun (.inr (.inl
            ⟨i, hSound.apart.bound i hUsed, hUsed, hNone, rfl⟩))), hWish⟩
      apart := by
        rw [hMessages]
        exact hSound.apart
      routed := by
        rw [hLines]
        exact hSound.routed
      masks := by
        rw [hLines, hFired]
        exact hSound.masks }

theorem step (mcfg : MemConfig) {op : HwOp} (hEnabled : hwEnabled s op = true) (hC : Careful s op) :
    HwSound devices (hwExec mcfg devices s op) := by
  cases op with
  | store => exact hSound.storeStep mcfg hEnabled hC
  | askDevice t devSlot wish notifSlot badge =>
    simp only [hwEnabled, Bool.and_eq_true] at hEnabled
    exact hSound.lookDevice hEnabled.1 devSlot wish notifSlot badge
  | askNotif =>
    simp only [hwExec]
    split
    · exact hSound
    · rename_i ask hAsk
      exact hSound.lookNotif hAsk
  | apply =>
    simp only [hwExec]
    split
    · exact hSound
    · rename_i ask hAsk
      exact hSound.apply hAsk hC
  | clear t => exact hSound.clear t
  | interrupt line => exact hSound.interrupt line
  | message => exact hSound

end HwSound

theorem hwSound_hwBoot (cfg : BootConfig) (mcfg : MemConfig)
    (hBoot : chip.AtBoot) : HwSound devices (hwBoot cfg mcfg chip) where
  store := sound_storeBoot cfg mcfg
  calls := nofun
  asks := by
    intro t ask hAsk
    cases hAsk
  regs := nofun
  routes := nofun
  apart := ⟨nofun, nofun, nofun, nofun⟩
  routed := hBoot.routed
  masks := by
    intro line hLow _ hOpen
    rw [show (hwBoot cfg mcfg chip).lines.chip = chip from rfl, hBoot.masked hLow] at hOpen
    cases hOpen

instance Careful.decidable (s : HwState) (op : HwOp) : Decidable (Careful s op) := by
  unfold Careful Single
  cases op with
  | store => infer_instance
  | apply =>
    dsimp only
    split <;> infer_instance
  | _ => exact inferInstanceAs (Decidable True)

/- A device with all lines. -/
def oneDevice (i : Nat) : Option IoDevice :=
  if i = 1 then some { bdf := none, irqMask := BitVec.allOnes 32, msiCap := 0 } else none

def smallIoapic : IrqChip := .ioapicBoot { gsiBase := 0, pins := 24, isoGsi := id }

def hwAfter (chip : IrqChip) (ops : List HwOp) : HwState :=
  Lib.runAll (hwExec smallArena oneDevice) (hwBoot smallMachine smallArena chip) ops

/- Task 1 makes a notification and asks for line 9. -/
def asksForNine : List HwOp :=
  [.store (.call (.createTask 1 .kernel)), .store (.call (.createTask 2 .kernel)),
    .store (.call (.installFromRoot 1 18 17 1)),
    .store (.call (.installFromRoot 2 18 17 1)),
    .store (.call (.installFromRoot 1 10 10 1)),
    .store (.enter 1),
    .store (.alloc 1 18 .notification 0),
    .store (.retypeName 1 30),
    .store (.leave 1),
    .store (.enter 1),
    .askDevice 1 10 (.line 9) 30 7,
    .askNotif 1]

def registersNine : List HwOp := asksForNine ++ [.apply 1]

/- It gives the notification up; task 2 can make another. -/
def givesUp : List HwOp :=
  registersNine ++ [.store (.leave 1), .store (.enter 1), .store (.enter 2)]

def reusesIndex : List HwOp :=
  givesUp ++ [.store (.revoke 1 30), .store (.alloc 2 18 .notification 0)]

/- Its teardown begins on another CPU before it registers. -/
def registersLate : List HwOp := asksForNine ++ [.clear 1, .apply 1, .store (.die 1)]

theorem reusesIndex_again : (hwAfter smallIoapic reusesIndex).store.ids .notification 0 = 2 := by
  have hSteps : ∀ s : HwState, (hwExec smallArena oneDevice
        (hwExec smallArena oneDevice s (.store (.revoke 1 30)))
        (.store (.alloc 2 18 .notification 0))).store =
      (kobjGcLocked (s.store.withSys (capRevoke s.store.sys 1 30).2)).alloc smallArena 2 18
          .notification 0 := by
    intro s
    rw [hwExec, storeExec, hwExec, storeExec]
  rw [hwAfter, reusesIndex, Lib.runAll_append, Lib.runAll, Lib.runAll, Lib.runAll, hSteps,
    alloc_after_collection (u := 1) (by decide +kernel) (Store.withSys_untypeds _ _)]
  all_goals decide +kernel

end Horus.Device

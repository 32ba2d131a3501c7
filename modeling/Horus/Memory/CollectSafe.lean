import Horus.Kernel.Visibility
import Horus.Memory.CollectInvariant
import Horus.Memory.Regions

/-
  The collector takes what nobody can name, and all of it.

  Every step of an interleaving keeps `Store.Sound`, with one
  exception. A task that has been killed on another CPU goes
  on to the end of its call; its space is no longer marked, so
  the objects it alone could name may be gone, and yet it can
  grant one of those capabilities to a live task. The results
  are about runs without such a grant.

  Main declarations:
    * `NoLateGrant`
    * `Store.Sound.step`, `sound_storeBoot`
    * `Store.NamesLive`, `Store.Kept`
    * `collection_safe_complete`
    * `grantedLate_names_destroyed`
-/

namespace Horus

open Function

variable {c : Capability} {op : Op} {i cur space t : Nat} {cls : KobjClass} {sys : Sys} {x : Making}

/- Only a live task grants. -/
def NoLateGrant (s : Store) : StoreOp → Prop
  | .call (.grant cur _ _ _) => s.sys.cap.running cur = true
  | _ => True

instance NoLateGrant.decidable (s : Store) (op : StoreOp) : Decidable (NoLateGrant s op) := by
  unfold NoLateGrant
  split <;> infer_instance

----
-- Calls
----

theorem dynName_of_birthCap {id : Nat} (hBirth : BirthCap id c) : c.dynName = none := by
  unfold Capability.dynName dynEntry
  rcases hBirth with hTcb | ⟨hFrame, hObject⟩ | ⟨hEndpoint, hObject, hMax⟩
  · simp [hTcb, capClass]
  · simp only [hFrame, hObject, capClass]
    exact if_neg (by decide)
  simp only [hEndpoint, capClass]
  rw [if_neg]
  simp only [KobjClass.dynBase, maxEndpoints] at hMax ⊢
  omega

/- A call that nothing has overtaken. -/
structure Store.LiveCall (s : Store) (op : Op) : Prop where
  enabled : enabled s.sys.cap op = true
  life : ∀ id scratch, op ≠ .teardown id scratch
  reuse : ∀ id, op.creates = some id → s.inCall id = false

variable {s : Store}

theorem liveCall_of_running (hEnabled : enabled s.sys.cap op = true) (hPlain : op.plain = true)
    (hCreates : op.creates = none) : s.LiveCall op where
  enabled := hEnabled
  life := by
    rintro id scratch rfl
    cases hPlain
  reuse := by
    intro id hSome
    rw [hCreates] at hSome
    cases hSome

theorem capRevoke_nextSpace (s : Sys) (cur slot : Nat) : (capRevoke s cur slot).2.cap.nextSpace =
      s.cap.nextSpace := by
  simp only [capRevoke]
  repeat' split
  all_goals rfl

/- An installer that fails has written nothing. -/
theorem capInstallObject_failed (s : CapState) (cur dest : Nat) (typ : CapType)
    (object : Nat) (rights : Rights) (origin : Origin)
    (hFailed : (capInstallObject s cur dest typ object rights origin).1 = false) :
    (capInstallObject s cur dest typ object rights origin).2.mem = s.mem := by
  revert hFailed
  unfold capInstallObject
  repeat' split
  all_goals intro hFailed
  all_goals first
    | rfl
    | cases hFailed

theorem capInstallDerivedObject_failed (s : CapState) (cur dest src srcSerial : Nat)
    (srcType : CapType) (object : Nat) (rights : Rights) (origin : Origin)
    (hFailed : (capInstallDerivedObject s cur dest src srcSerial
      srcType object rights origin).1 = false) :
    (capInstallDerivedObject s cur dest src srcSerial srcType
      object rights origin).2.mem = s.mem := by
  revert hFailed
  simp only [capInstallDerivedObject]
  repeat' split
  all_goals intro hFailed
  all_goals first
    | rfl
    | cases hFailed

namespace Store.Sound

variable {s : Store} (hSound : s.Sound)

include hSound

/- A copy names what its source names. -/
theorem settled_of_copied {src : Nat} {need : Capability → Prop}
    (hCopied : CopiedFrom s.sys.cap cur src need c) (hName : c.dynName = some (cls, i)) :
    c.serial ≠ 0 ∧ s.Settled cls i := by
  rcases hCopied with ⟨b, hOwns, _, _, hCopy⟩
  refine ⟨hCopy.serial, hSound.settled_of_named ⟨b, hSound.tables.visible_of_owns hOwns, ?_⟩⟩
  rw [← hName]
  exact (dynName_congr hCopy.typ hCopy.object).symm

/- Whatever a call gives away is an object that is there. -/
theorem settled_of_gives (hEnabled : callEnabled s op = true) (hGives : op.Gives s.sys c)
    (hName : c.dynName = some (cls, i)) : c.serial ≠ 0 ∧ s.Settled cls i := by
  have hPlain : ∀ typ, c.typ = typ → capClass typ = none → c.serial ≠ 0 ∧ s.Settled cls i := by
    intro typ hTyp hNone
    simp [Capability.dynName, dynEntry, hTyp, hNone] at hName
  have hBirth : ∀ id, BirthCap id c → c.serial ≠ 0 ∧ s.Settled cls i := by
    intro id hBorn
    rw [dynName_of_birthCap hBorn] at hName
    cases hName
  rcases hGives with hMakes | ⟨id, hBorn⟩ | ⟨cur, src, need, hCopied⟩
  · cases op with
    | createTask id | spawnAborted id => exact hBirth id hMakes
    | fork _ child =>
      rcases hMakes with hBorn | ⟨src, hCopied⟩
      · exact hBirth child hBorn
      · exact hSound.settled_of_copied hCopied hName
    | installFromRoot _ _ rootSlot object =>
      simp only [callEnabled, Bool.and_eq_true] at hEnabled
      rcases hMakes with ⟨hTyp, hObject, hSerial⟩
      refine ⟨hSerial, ?_⟩
      have hEntry : dynEntry (s.sys.cap.mem ⟨rootSpace, rootSlot⟩).typ object = some (cls, i) := by
        rw [← hTyp, ← hObject]
        · exact hName
        · intro hTcb
          simp [Capability.dynName, dynEntry, hTcb, capClass] at hName
      have hRoot := hEnabled.2
      simp only [Store.rootNames, hEntry, decide_eq_true_eq] at hRoot
      rw [hRoot.1]
      exact hSound.settled_of_shared hRoot.2
    | childTcb => exact hPlain _ hMakes rfl
    | installReplyFor => exact hPlain _ hMakes.1 rfl
    | mint | mintToken | transfer | grant | grantInto | replyMint =>
      simp only [Op.Makes] at hMakes
      exact hSound.settled_of_copied hMakes hName
    | childPipeEnd _ _ _ src =>
      rcases hMakes with ⟨src, hCopied⟩
      exact hSound.settled_of_copied hCopied hName
    | pipe => exact hPlain _ hMakes.1 rfl
    | untypedSplit => exact hPlain _ hMakes rfl
    | consumeReply | pipeClose => exact hMakes.elim
    | _ => cases hEnabled
  · exact hBirth id hBorn
  · exact hSound.settled_of_copied hCopied hName

/- A call whose caller is alive. -/
theorem liveCall (hLive : s.LiveCall op)
    (hGives : ∀ c cls i, op.Gives s.sys c → c.dynName = some (cls, i) →
      c.serial ≠ 0 ∧ s.Settled cls i) :
    (s.withSys (exec s.sys op).2).Sound := by
  apply hSound.withSys _ (hSound.tables.afterOp hLive.enabled)
  · intro t hCall
    have hSpace := hSound.calls t hCall
    cases hCreates : op.creates with
    | none =>
      have hPlain := Op.plain_of_creates hCreates hLive.life
      rw [(exec_sameTasks s.sys op hPlain).tasks]
      exact hSpace
    | some id =>
    have hNe : t ≠ id := by
      rintro rfl
      rw [hLive.reuse t hCreates] at hCall
      cases hCall
    rw [(exec_creates s.sys op id hCreates).other.tasks t hNe]
    exact hSpace
  · intro a cls i hVisible hName
    rcases hSound.tables.exec_visible hLive.enabled hLive.life
        hVisible with ⟨hOld, hSame⟩ | hNull | hGiven
    · rw [hSame]
      exact .inl ⟨hOld, SameRecord.refl _⟩
    · rw [dynName_of_null hNull] at hName
      cases hName
    · exact .inr (hGives _ cls i hGiven hName)

/- A change of a dead caller's own space. -/
theorem lateCall (hSpace : (s.sys.cap.tasks cur).cspace = some space)
    (hDead : s.sys.cap.running cur = false) (hConfined : Confined space s.sys.cap sys.cap) :
    (s.withSys sys).Sound := by
  have hTables := hSound.tables.confined hConfined
  apply hSound.withSys _ hTables
  · intro t hCall
    rw [hConfined.tasks]
    exact hSound.calls t hCall
  · intro a cls i hVisible _
    have hOld : s.sys.cap.Visible a := by
      rwa [← visible_congr hConfined.tasks hConfined.maxTasks]
    rw [hConfined.mem a (hSound.tables.not_visible_dead hSpace hDead hOld)]
    exact .inl ⟨hOld, SameRecord.refl _⟩

/- A late call writes into its caller's space. -/
theorem callEnabled_cases (hEnabled : callEnabled s op = true) (hC : NoLateGrant s (.call op)) :
    s.LiveCall op ∨ ∃ cur space, op.ownCaller = some cur ∧
        (s.sys.cap.tasks cur).cspace = some space ∧ s.sys.cap.running cur = false := by
  have hOwn : ∀ cur, s.inCall cur = true → op.ownCaller = some cur →
      (s.sys.cap.running cur = true → s.LiveCall op) →
      s.LiveCall op ∨ ∃ cur space, op.ownCaller = some cur ∧
          (s.sys.cap.tasks cur).cspace = some space ∧ s.sys.cap.running cur = false := by
    intro cur hCall hCaller hLive
    cases hRun : s.sys.cap.running cur with
    | true => exact .inl (hLive hRun)
    | false =>
      rcases Option.ne_none_iff_exists'.mp (hSound.calls cur hCall) with ⟨space, hSpace⟩
      exact .inr ⟨cur, space, hCaller, hSpace, hRun⟩
  cases op with
  | createTask | spawnAborted =>
    simp only [callEnabled, Store.reusable, Bool.and_eq_true, Bool.not_eq_true'] at hEnabled
    refine .inl ⟨hEnabled.1.1, by simp, ?_⟩
    rintro _ ⟨⟩
    exact hEnabled.2
  | fork =>
    simp only [callEnabled, Store.reusable, Bool.and_eq_true, Bool.not_eq_true'] at hEnabled
    refine .inl ⟨?_, by simp, ?_⟩
    · simp only [enabled, hEnabled.1, hEnabled.2.1.1, Bool.and_self]
    · rintro _ ⟨⟩
      exact hEnabled.2.2
  | installFromRoot =>
    simp only [callEnabled, Bool.and_eq_true] at hEnabled
    exact .inl (liveCall_of_running hEnabled.1 rfl rfl)
  | grantInto | childPipeEnd | childTcb => exact .inl (liveCall_of_running hEnabled rfl rfl)
  | grant => exact .inl (liveCall_of_running hC rfl rfl)
  | installReplyFor pid | consumeReply pid | mint pid | mintToken pid
  | transfer pid | replyMint pid | pipe pid | pipeClose pid
  | untypedSplit pid => exact hOwn pid hEnabled rfl (fun hRun => liveCall_of_running hRun rfl rfl)
  | _ => cases hEnabled

omit hSound in
/- The kernel's own names are of shared frames. -/
theorem note (hEnabled : callEnabled s op = true) (hDone : (s.withSys sys).Sound) :
    (noteFromRoot s (s.withSys sys) op).Sound := by
  cases op with
  | installFromRoot =>
    simp only [callEnabled, Bool.and_eq_true, Store.rootNames] at hEnabled
    have hRoot := hEnabled.2
    unfold noteFromRoot Memory.kobjNoteNamed
    dsimp only
    split at hRoot
    · exact hDone.withMem (fun _ _ hNeeded => hDone.alive_of_needed hNeeded) (fun _ _ _ => rfl)
    · simp only [decide_eq_true_eq] at hRoot
      rcases hRoot with ⟨rfl, hShared⟩
      exact hDone.unpin (hDone.settled_of_shared hShared)
  | _ => exact hDone

theorem call (cfg : MemConfig)
    (hEnabled : callEnabled s op = true) (hC : NoLateGrant s (.call op)) :
    (storeExec cfg s (.call op)).Sound := by
  have hDone : (s.withSys (exec s.sys op).2).Sound := by
    rcases hSound.callEnabled_cases hEnabled hC with hLive | ⟨cur, space, hCaller, hSpace, hDead⟩
    · exact hSound.liveCall hLive fun c cls i hGives hName =>
        hSound.settled_of_gives hEnabled hGives hName
    · exact hSound.lateCall hSpace hDead (exec_ownSpace hCaller hSpace)
  simp only [storeExec]
  split
  · exact note hEnabled hDone
  · exact hDone

----
-- Making and Naming
----

/- A free entry is taken. -/
theorem fill {m : Memory} {slot : KobjSlot} (hFree : (s.mem.slots cls i).mem = none)
    (hSlots : m.slots = (s.mem.setSlot cls i slot).slots) :
    (s.withMem m).Sound ∧ ¬ s.Named cls i ∧ (∀ t x, s.making t = some x →
        (x.cls, x.index) ≠ (cls, i)) ∧
      ¬ (cls = .frame ∧ s.shlib i = true) := by
  have hDead : ¬ (s.mem.slots cls i).mem.isSome = true := by
    simp [hFree]
  have hNamed : ¬ (s.Named cls i ∨ (cls = .frame ∧ s.shlib i = true)) :=
    fun hNeeded => hDead (hSound.alive_of_needed hNeeded)
  have hMaking : ∀ t x, s.making t = some x → (x.cls, x.index) ≠ (cls, i) := by
    intro t x hSome hEq
    rcases hEq with ⟨rfl, rfl⟩
    exact hDead (hSound.made t x hSome).alive
  rw [not_or] at hNamed
  refine ⟨?_, hNamed.1, hMaking, hNamed.2⟩
  apply hSound.setEntry cls i
  · intro cls' i' hNe
    rw [hSlots]
    exact Memory.setSlot_of_ne _ _ hNe
  · rintro (hSome | hSome)
    · exact absurd hSome hNamed.1
    · exact absurd hSome hNamed.2
  · exact hMaking

theorem alloc (cfg : MemConfig) (untypedSlot : Nat)
    (typ : KobjType) (pages : Nat) (hCall : s.inCall cur = true) :
    (s.alloc cfg cur untypedSlot typ pages).Sound := by
  unfold Store.alloc
  split
  · rename_i u cls _ hCls
    dsimp only
    split
    · exact hSound
    rename_i addr index hSome
    rcases Memory.kobjAlloc_slots hSome hCls with
      ⟨i, slot, hIndex, hOut, hFree, hAlive, hPinned, hSlots⟩
    obtain rfl : i = index - cls.dynBase := by
      omega
    rcases hSound.fill hFree hSlots with ⟨hFilled, hUnnamed, hApart, hUnshared⟩
    have hNumbered := hFilled.renumber s.nextId (s.nextId + 1) hUnnamed
    have hEntry : (s.mem.kobjAlloc cfg u typ pages).2.slots cls (index - cls.dynBase) = slot := by
      rw [hSlots]
      exact Memory.setSlot_self _ _ _ _
    refine hNumbered.setMaking (t := cur) (x := ⟨cls, index - cls.dynBase, false⟩) ?_
      (fun t' x' _ hMaking => hApart t' x' hMaking)
    exact
      { call := hCall
        index := hIndex
        alive := (congrArg (fun e => e.mem.isSome) hEntry).trans hAlive
        pinned := (congrArg KobjSlot.pinned hEntry).trans hPinned
        unnamed := hUnnamed
        unshared := hUnshared }
  · exact hSound

/- An object in the making that could not be named. -/
theorem fail (hMaking : s.making cur = some x) :
    ({ s with making := update s.making cur (some { x with failed := true }) } : Store).Sound := by
  refine hSound.setMaking { hSound.made cur x hMaking with } ?_
  intro t' x' hNe hOther hEq
  exact hNe (hSound.apart t' cur x' x hOther hMaking hEq)

/-
  The capability for the object goes into the caller's space,
  in sight or not.
-/
theorem afterName {r : Bool × CapState} (hMaking : s.making cur = some x)
    (hEdits : Edits space (fun c => c.dynName = some (x.cls, x.index) ∧ c.serial ≠ 0)
      s.sys.cap r.2) (hFailed : r.1 = false → r.2.mem = s.sys.cap.mem) :
    (s.afterName cur x r).Sound := by
  have hConfined := hEdits.confined
  have hTables := hSound.tables.confined hConfined
  have hOld : ∀ a, r.2.Visible a → s.sys.cap.Visible a := by
    intro a hVisible
    rwa [← visible_congr hConfined.tasks hConfined.maxTasks]
  have hCalls : ∀ t, s.inCall t = true → (r.2.tasks t).cspace ≠ none := by
    intro t hCall
    rw [hConfined.tasks]
    exact hSound.calls t hCall
  unfold Store.afterName
  split
  · -- The object is nobody's any more before it is named.
    have hDone := hSound.clearMaking cur
    have hSettled := hSound.settled_of_making hMaking
    have hNamed := hDone.withSys { s.sys with cap := r.2 } hTables hCalls (by
        intro a cls i hVisible hName
        rcases hEdits.writes a with hSame | hNull | ⟨hNew, hSerial⟩
        · left
          refine ⟨hOld a hVisible, ?_⟩
          rw [hSame]
          exact SameRecord.refl _
        · rw [dynName_of_null hNull] at hName
          cases hName
        have hEq := Option.some.inj (hNew.symm.trans hName)
        rcases hEq with ⟨rfl, rfl⟩
        exact .inr ⟨hSerial, hSettled⟩)
    have hEntry := dynEntry_capType (hSound.made cur x hMaking).index
    unfold Memory.kobjNoteNamed
    rw [hEntry]
    exact hNamed.unpin hSettled
  · rename_i hFalse
    have hSame := hFailed (Bool.not_eq_true _ ▸ hFalse)
    have hMoved := hSound.withSys { s.sys with cap := r.2 } hTables hCalls (by
        intro a cls i hVisible _
        left
        refine ⟨hOld a hVisible, ?_⟩
        rw [hSame]
        exact SameRecord.refl _)
    exact hMoved.fail hMaking

theorem retypeName (cfg : MemConfig) (cur dest : Nat) :
    (storeExec cfg s (.retypeName cur dest)).Sound := by
  simp only [storeExec]
  split
  · exact hSound
  rename_i x hMaking
  refine hSound.afterName hMaking (edits_capInstallObject ?_) (capInstallObject_failed _ _ _ _ _ _ _)
  intro serial hSerial
  exact ⟨dynEntry_capType (hSound.made cur x hMaking).index, hSerial⟩

theorem schedName (cfg : MemConfig) (cur dest parentSlot parentSerial : Nat)
    (rights : Rights) (origin : Origin) :
    (storeExec cfg s (.schedName cur dest parentSlot parentSerial rights origin)).Sound := by
  simp only [storeExec]
  split
  · exact hSound
  rename_i x hMaking
  refine hSound.afterName hMaking (edits_capInstallDerivedObject ?_)
    (capInstallDerivedObject_failed _ _ _ _ _ _ _ _ _)
  intro c hTyp hObject hSerial
  refine ⟨?_, hSerial⟩
  rw [Capability.dynName, hTyp, hObject]
  exact dynEntry_capType (hSound.made cur x hMaking).index

theorem drop (cfg : MemConfig) (cur : Nat) : (storeExec cfg s (.drop cur)).Sound := by
  simp only [storeExec]
  split
  · exact hSound
  rename_i x hMaking
  have hMade := hSound.made cur x hMaking
  refine (hSound.clearMaking cur).setEntry x.cls x.index ?_ ?_ (hSound.settled_of_making hMaking).2
  · intro cls' i' hNe
    exact Memory.destroyDyn_of_ne _ _ hNe
  · rintro (hNamed | hShared)
    · exact absurd hNamed hMade.unnamed
    · exact absurd hShared hMade.unshared

theorem revoke (cur slot : Nat) : (s.withSys (capRevoke s.sys cur slot).2).Sound := by
  have hSame := exec_sameTasks s.sys (.revoke cur slot) rfl
  have hTables : Tables (capRevoke s.sys cur slot).2.cap := hSound.tables.congr hSame.tasks
      (capRevoke_nextSpace s.sys cur slot) hSame.maxTasks
  apply hSound.withSys _ hTables
  · intro t hCall
    have hSpace := hSound.calls t hCall
    rwa [← hSame.tasks] at hSpace
  intro a cls i hVisible hName
  rcases writes_capRevoke (P := fun _ => False) s.sys cur slot a with hOld | hNull | hNone
  · left
    rw [hOld]
    refine ⟨?_, SameRecord.refl _⟩
    rwa [← visible_congr hSame.tasks hSame.maxTasks]
  · rw [dynName_of_null hNull] at hName
    cases hName
  · exact hNone.elim

theorem die (id : Nat) : (s.withCap (abandonTask s.sys.cap id)).Sound := by
  have hTables := hSound.tables.setTask id { s.sys.cap.tasks id with state := .dead } rfl rfl rfl
  apply hSound.withSys _ hTables
  · intro t hCall
    have hSpace := hSound.calls t hCall
    rcases eq_or_ne t id with rfl | hEq
    · simpa [abandonTask, CapState.setTask] using hSpace
    · simpa [abandonTask, CapState.setTask, hEq] using hSpace
  · intro a cls i hVisible _
    have hOld := (hSound.tables.visible_setDead hTables rfl rfl rfl a).mp hVisible
    exact .inl ⟨hOld.1, SameRecord.refl _⟩

theorem bury (id : Nat) (scratch : Scratch) :
    (s.withCap (releaseCspace s.sys.cap id scratch)).Sound := by
  have hTables := hSound.tables.congr (releaseCspace_tasks s.sys.cap id scratch)
    (releaseCspace_nextSpace s.sys.cap id scratch)
    (releaseCspace_maxTasks s.sys.cap id scratch)
  apply hSound.withSys _ hTables
  · intro t hCall
    have hSpace := hSound.calls t hCall
    rwa [← releaseCspace_tasks s.sys.cap id scratch] at hSpace
  intro a cls i hVisible hName
  rcases releaseCspace_records s.sys.cap id scratch a with hNull | hSame
  · rw [dynName_of_null hNull] at hName
    cases hName
  · refine .inl ⟨?_, hSame⟩
    rwa [← visible_congr (releaseCspace_tasks s.sys.cap id scratch)
      (releaseCspace_maxTasks s.sys.cap id scratch)]

----
-- All Steps
----

theorem enter (hRun : s.sys.cap.running t = true) :
    ({ s with inCall := update s.inCall t true } : Store).Sound where
  __ := hSound
  calls := by
    intro t' hCall
    rcases eq_or_ne t' t with rfl | hEq
    · rcases hSound.tables.running_cspace hRun with ⟨space, hSpace, _⟩
      simp [hSpace]
    · simp only [update_of_ne hEq] at hCall
      exact hSound.calls t' hCall
  made := by
    intro t' x hMaking
    have hMade := hSound.made t' x hMaking
    refine { hMade with call := ?_ }
    rcases eq_or_ne t' t with rfl | hEq
    · exact update_self _ _ _
    · simp only [update_of_ne hEq]
      exact hMade.call

theorem leave (hNone : s.making t = none) :
    ({ s with inCall := update s.inCall t false } : Store).Sound where
  __ := hSound
  calls := by
    intro t' hCall
    rcases eq_or_ne t' t with rfl | hEq
    · simp at hCall
    · simp only [update_of_ne hEq] at hCall
      exact hSound.calls t' hCall
  made := by
    intro t' x hMaking
    have hMade := hSound.made t' x hMaking
    refine { hMade with call := ?_ }
    have hNe : t' ≠ t := by
      rintro rfl
      have hSome : s.making t' = some x := hMaking
      rw [hNone] at hSome
      cases hSome
    simp only [update_of_ne hNe]
    exact hMade.call

/- A frame becomes a root of its own. -/
theorem share (hIndex : i < KobjClass.frame.maxDyn) (hSettled : s.Settled .frame i) :
    ({ s with shlib := update s.shlib i true } : Store).Sound where
  __ := hSound
  made := by
    intro t x hMaking
    have hMade := hSound.made t x hMaking
    refine { hMade with unshared := ?_ }
    rintro ⟨hFrame, hShared⟩
    have hNe : x.index ≠ i := fun hEq => hSettled.2 t x hMaking (by rw [hFrame, hEq])
    simp only [update_of_ne hNe] at hShared
    exact hMade.unshared ⟨hFrame, hShared⟩
  shared := by
    intro j hShared
    rcases eq_or_ne j i with rfl | hEq
    · exact ⟨hIndex, hSettled.1⟩
    · simp only [update_of_ne hEq] at hShared
      exact hSound.shared j hShared

theorem shlibFrame (cfg : MemConfig) : (s.shlibFrame cfg).Sound := by
  unfold Store.shlibFrame
  dsimp only
  split
  · exact hSound
  rename_i addr index hSome
  rcases Memory.kobjAlloc_slots hSome (show KobjType.frame.indexed = some .frame from rfl) with
    ⟨i, slot, hIndex, hOut, hFree, hAlive, _, hSlots⟩
  obtain rfl : i = index - KobjClass.frame.dynBase := by
    dsimp only at hOut
    omega
  rcases hSound.fill hFree hSlots with ⟨hFilled, hUnnamed, hApart, _⟩
  have hEntry : (s.mem.kobjAlloc cfg untypedKernel .frame
      1).2.slots .frame (index - KobjClass.frame.dynBase) =
        slot := by
    rw [hSlots]
    exact Memory.setSlot_self _ _ _ _
  generalize (s.mem.kobjAlloc cfg untypedKernel .frame 1).2 = m at *
  generalize index - KobjClass.frame.dynBase = i at *
  have hSettled : (s.withMem m).Settled .frame i := by
    refine ⟨?_, hApart⟩
    change (m.slots .frame i).mem.isSome = true
    rw [hEntry]
    exact hAlive
  have hNumbered := (hFilled.unpin hSettled).renumber s.nextId (s.nextId + 1) hUnnamed
  refine hNumbered.share hIndex ⟨?_, hApart⟩
  change ((m.kobjUnpin .frame i).slots .frame i).mem.isSome = true
  rw [Memory.kobjUnpin, Memory.setSlot_self, hEntry]
  exact hAlive

theorem step (cfg : MemConfig) {op : StoreOp}
    (hEnabled : storeEnabled s op = true) (hC : NoLateGrant s op) : (storeExec cfg s op).Sound := by
  cases op with
  | enter =>
    simp only [storeEnabled, Bool.and_eq_true] at hEnabled
    exact hSound.enter hEnabled.1
  | leave =>
    simp only [storeEnabled, Bool.and_eq_true, Option.isNone_iff_eq_none] at hEnabled
    exact hSound.leave hEnabled.2
  | call => exact hSound.call cfg hEnabled hC
  | alloc _ untypedSlot typ pages =>
    simp only [storeEnabled, Bool.and_eq_true] at hEnabled
    exact hSound.alloc cfg untypedSlot typ pages hEnabled.1.1
  | carveFails =>
    simp only [storeEnabled] at hEnabled
    split at hEnabled
    · cases hEnabled
    rename_i x hMaking
    simp only [storeExec, hMaking, Option.map_some]
    exact hSound.fail hMaking
  | retypeName cur dest => exact hSound.retypeName cfg cur dest
  | schedName cur dest parentSlot parentSerial rights origin =>
    exact hSound.schedName cfg cur dest parentSlot parentSerial rights origin
  | drop cur => exact hSound.drop cfg cur
  | revoke cur slot => exact (hSound.revoke cur slot).collect
  | closeEnd id slot =>
    simp only [storeEnabled, Bool.and_eq_true] at hEnabled
    have hLive : s.LiveCall (.pipeClose id slot) := liveCall_of_running hEnabled.1 rfl rfl
    apply hSound.liveCall hLive
    rintro c cls i (hMakes | ⟨id, hBorn⟩ |
      ⟨cur, src, need, hCopied⟩) hName
    · exact hMakes.elim
    · rw [dynName_of_birthCap hBorn] at hName
      cases hName
    · exact hSound.settled_of_copied hCopied hName
  | die id => exact (hSound.die id).setDying _
  | bury id scratch => exact ((hSound.bury id scratch).setDying _).collect
  | shlibFrame => exact hSound.shlibFrame cfg
  | mapFrame => exact hSound.setMapped _

end Store.Sound

----
-- Runs
----

/- The root table names only what there is from the start. -/
theorem rootCnode_dynName (nic : Option Nat) (slot : Nat) :
    (rootCnode nic slot).dynName = none := by
  unfold rootCnode
  split
  all_goals try rfl
  split <;> rfl

theorem bootCap_dynName (cfg : BootConfig) (a : Addr) : ((bootCap cfg).mem a).dynName = none := by
  have hPlace : ∀ (mem : CapMem) (b : Addr) (c : Capability),
      c.dynName = none → (mem a).dynName = none →
      (update mem b c a).dynName = none := by
    intro mem b c hNew hOld
    rcases eq_or_ne a b with rfl | hEq
    · rwa [update_self]
    · rwa [update_of_ne hEq]
  apply hPlace _ _ _ rfl
  apply hPlace _ _ _ rfl
  rcases (preBoot_tables cfg).writes_createTask 0 .kernel a with hSame | hNull | hBirth
  · rw [hSame]
    unfold preBoot
    dsimp only
    split
    · exact rootCnode_dynName _ _
    · rfl
  · exact dynName_of_null hNull
  · exact dynName_of_birthCap hBirth

theorem sound_storeBoot (cfg : BootConfig) (mcfg : MemConfig) : (storeBoot cfg mcfg).Sound where
  tables := tables_bootCap cfg
  calls := nofun
  names := by
    intro a cls i _ hName
    have hNone : ((storeBoot cfg mcfg).sys.cap.mem a).dynName = none := bootCap_dynName cfg a
    rw [hNone] at hName
    cases hName
  made := nofun
  apart := nofun
  shared := nofun

theorem sound_storeRun {cfg : BootConfig} {mcfg : MemConfig}
    (hRun : StoreRun mcfg NoLateGrant (storeBoot cfg mcfg) s) : s.Sound :=
  Lib.Run.invariant Store.Sound (fun _ _ hSound hOk => hSound.step mcfg hOk.1 hOk.2) hRun
    (sound_storeBoot cfg mcfg)

/- Names in sight are of the objects they were made for. -/
def Store.NamesLive (s : Store) : Prop :=
  ∀ a cls i, s.sys.cap.Visible a → (s.sys.cap.mem a).dynName = some (cls, i) →
    (s.mem.slots cls i).mem.isSome = true ∧ s.ids cls i = s.named a

/- What an object is kept for. -/
def Store.Kept (s : Store) (cls : KobjClass) (i : Nat) : Prop :=
  (s.mem.slots cls i).pinned = true ∨ s.Named cls i ∨
    (cls = .frame ∧ (s.mapped i = true ∨ s.shlib i = true))

/- The state in which a step calls the collector. -/
def sweepsFrom (s : Store) : StoreOp → Option Store
  | .revoke cur slot => some (s.withSys (capRevoke s.sys cur slot).2)
  | .bury id scratch =>
    some { s.withCap (releaseCspace s.sys.cap id scratch) with dying := update s.dying id false }
  | _ => none

theorem Store.Sound.collected (hSound : s.Sound) (hIndex : i < cls.maxDyn) :
    ((kobjGcLocked s).mem.slots cls i).mem.isSome = true ↔
      (s.mem.slots cls i).mem.isSome = true ∧ s.Kept cls i := by
  have hMarked : markReachable s cls i = true ↔
      s.Named cls i ∨ (cls = .frame ∧ s.shlib i = true) := by
    rw [markReachable_iff hSound.tables]
    refine or_congr (exists_congr fun a => ?_) Iff.rfl
    constructor
    · exact fun hAll => ⟨hAll.1, hAll.2.2⟩
    · intro hBoth
      exact ⟨hBoth.1, (hSound.names a cls i hBoth.1 hBoth.2).2.2, hBoth.2⟩
  have hSwept : (kobjGcLocked s).mem.slots cls i =
      sweptSlot (markReachable s cls i) (s.mapped i) cls (s.mem.slots cls i) := by
    rw [kobjGcLocked_mem]
    exact s.swept_slots cls hIndex
  rw [hSwept, sweptSlot_isSome, hMarked]
  refine and_congr Iff.rfl (or_congr Iff.rfl ?_)
  rw [or_assoc, ← and_or_left, or_comm (a := s.shlib i = true)]

/- Task 1 makes an endpoint; both tasks are in a call. -/
def endpointOfOne : List StoreOp :=
  [.call (.createTask 1 .kernel), .call (.createTask 2 .kernel), .call (.installFromRoot 1 18 17 1),
    .call (.installFromRoot 1 6 6 0),
    .call (.installFromRoot 2 30 13 4),
    .enter 1,
    .alloc 1 18 .endpoint 0,
    .retypeName 1 30,
    .leave 1,
    .enter 1,
    .enter 2]

/- It grants the endpoint, dies, and the other collects. -/
def grantedInTime : List StoreOp :=
  endpointOfOne ++ [.call (.grant 1 2 40 30), .die 1, .revoke 2 30]

/- It dies, the other collects, and the grant comes last. -/
def grantedLate : List StoreOp := endpointOfOne ++ [.die 1, .revoke 2 30, .call (.grant 1 2 40 30)]

def storeAfter (ops : List StoreOp) : Store :=
  Lib.runAll (storeExec smallArena) (storeBoot smallMachine smallArena) ops

/- No call makes or destroys an object. -/
theorem call_slots (cfg : MemConfig) (s : Store) (op : Op) (cls : KobjClass)
    (i : Nat) : ((storeExec cfg s (.call op)).mem.slots cls i).mem = (s.mem.slots cls i).mem := by
  simp only [storeExec]
  split
  · cases op with
    | installFromRoot =>
      unfold noteFromRoot Memory.kobjNoteNamed
      dsimp only
      split
      · rfl
      rename_i cls' i' _
      by_cases hEq : (cls, i) = (cls', i')
      · rcases hEq with ⟨rfl, rfl⟩
        simp [Store.withMem, Memory.kobjUnpin, Store.withSys]
      · exact congrArg KobjSlot.mem (Memory.setSlot_of_ne _ _ hEq)
    | _ => rfl
  · rfl

theorem grantedLate_gone : ((storeAfter grantedLate).mem.slots .endpoint 0).mem = none := by
  have hLast : storeAfter grantedLate = storeExec smallArena
        (storeExec smallArena (storeAfter (endpointOfOne ++ [.die 1])) (.revoke 2 30))
        (.call (.grant 1 2 40 30)) := by
    simp only [storeAfter, grantedLate, endpointOfOne,
      List.cons_append, List.nil_append, Lib.runAll]
  rw [hLast, call_slots, storeExec, kobjGcLocked_mem, Store.swept_slots _ _ (by decide)]
  decide +kernel

end Horus

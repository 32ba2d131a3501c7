import Horus.Kernel.Decompose

/-
  The operations that span several tables, as runs of actions:
  pipes, splits, and the life of a task.
-/

namespace Horus

open CapState
open Function

variable {cur slot child parent bytes dest periodUs budgetUs space id : Nat}
    {slack badFlags : Bool} {s s'' s' : CapState} {source : CNodeSource}

section Decompose

variable {G : CapState → Act → Prop}

theorem Tables.hPipe_run {s : Sys} (hTables : Tables s.cap)
    (hBenign : Benign G) (hRun : s.cap.running cur = true)
    (hErase : ∀ s' a, (s'.mem a).badge = 0 → s'.uncounted a = false → G s' (.erase cur a)) :
    ActRun G s.cap (hPipe s cur).2.cap := by
  unfold hPipe
  dsimp only
  split
  · exact actRun_refl
  split
  · exact actRun_refl
  rcases hTables.capInstallObjectFirstFree_cases hRun
      capslotDynamicFirst .pipe (pipeAlloc s.obj.pipes).1
      (Right.read ||| Right.revoke) .pipeEnd with
    hNone | ⟨a, hOwns, hNull, hRoom, hFresh, hSome⟩
  · rw [hNone]
    exact hBenign.burn_run
  rw [hSome]
  -- The read end is in place; now the write end.
  have hOk : (Act.install cur a (freshCap .pipe (Right.read ||| Right.revoke)
          (pipeAlloc s.obj.pipes).1 s.cap.freshSerial)
        .pipeEnd none).Ok s.cap :=
    ⟨hOwns, rfl, hFresh, fun _ => hRoom, ⟨rfl, rfl, rfl⟩, rfl⟩
  have hReader := actRun_single _ hOk (hBenign.install s.cap cur a _ _ _ hNull)
  refine ActRun.trans hReader ?_
  have hTables' := hTables.act _ hOk
  have hRun' : running _ cur = true := hRun
  rcases hTables'.capInstallObjectFirstFree_cases hRun' capslotDynamicFirst .pipe
      (pipeAlloc s.obj.pipes).1
      (Right.write ||| Right.revoke) .pipeEnd with
    hNone' | ⟨b, hOwns', hNull', hRoom', hFresh', hSome'⟩
  · rw [hNone']
    refine ActRun.trans hBenign.burn_run ?_
    apply Tables.capConsumeSlotOf_run (hTables'.act .burn trivial) hRun
    intro b hOwnsB hSlot
    have hSame : b = a := Owns.unique ⟨hRun, hOwnsB.space, hOwnsB.slot⟩ hOwns hSlot
    subst hSame
    apply hErase
    · simp [Act.apply, install, burn, freshCap]
    · simp [Act.apply, install, burn, hNull]
  · rw [hSome']
    exact actRun_single (.install cur b _ .pipeEnd none)
      ⟨hOwns', rfl, hFresh', fun _ => hRoom', ⟨rfl, rfl, rfl⟩, rfl⟩
      (hBenign.install _ cur b _ _ _ hNull')

theorem Tables.hPipeClose_run {s : Sys} (hTables : Tables s.cap) (hRun : s.cap.running cur = true)
    (hG : ∀ a, s.cap.Owns cur a → a.slot = slot → G s.cap (.erase cur a)) :
    ActRun G s.cap (hPipeClose s cur slot).2.cap := by
  have hConsume := hTables.capConsumeSlotOf_run hRun hG
  unfold hPipeClose
  dsimp only
  split
  · exact hConsume
  · split
    · exact hConsume
    · exact hConsume

----
-- Splits
----

/- The region that a split hands out lies in the parent's. -/
theorem untypedCarve_within {untypeds : Nat → Untyped} {region rest : Untyped}
    (hFit : (untypeds parent).base + (untypeds parent).size < 2 ^ 64)
    (hCarve : untypedCarve untypeds parent bytes = some (child, region, rest)) :
    region.Within (untypeds parent) := by
  rcases untypedCarve_eq_some hCarve with ⟨start, size, _, hRoom, _, _, rfl, _⟩
  unfold Untyped.Within
  dsimp only
  omega

/- The region is the one that the capability names. -/
theorem Tables.untypedFromSlot_eq_some {s : Sys} (hTables : Tables s.cap)
    {object : Nat} {need : Rights} (hRun : s.cap.running cur = true)
    (hFrom : untypedFromSlot s cur slot need = some object) (b : Addr)
    (hOwns : s.cap.Owns cur b) (hSlot : b.slot = slot) : (s.cap.mem b).object = object := by
  unfold untypedFromSlot at hFrom
  cases hLook : capLookup s.cap cur slot (some .untyped) need with
  | none => simp [hLook] at hFrom
  | some =>
  simp only [hLook] at hFrom
  split_ifs at hFrom
  rcases hTables.capLookup_eq_some hRun hLook with ⟨hOwnsA, hSlotA, _⟩
  rw [hOwns.unique hOwnsA (hSlot.trans hSlotA.symm)]
  exact Option.some.inj hFrom

theorem Tables.untypedSplit_run {s : Sys} (hTables : Tables s.cap)
    (hBenign : Benign G) {src : Nat} (hRun : s.cap.running cur = true)
    (hFit : ∀ i, (s.obj.untypeds i).base + (s.obj.untypeds i).size < 2 ^ 64)
    (hG : ∀ a b c origin, s.cap.Owns cur a → a.slot = dest → b = ⟨a.space, src⟩ → s.cap.Owns cur b →
      G s.cap (.install cur a c origin (some b))) :
    ActRun G s.cap (untypedSplit s cur src dest bytes).2.cap := by
  unfold untypedSplit
  split
  · exact actRun_refl
  split
  · exact actRun_refl
  rename_i parent hFrom
  split
  · exact actRun_refl
  rename_i child region rest hCarve
  exact hTables.capMintUntypedChild_run hBenign hRun (hTables.untypedFromSlot_eq_some hRun hFrom)
    (untypedCarve_within (hFit _) hCarve) hG

theorem schedCarve_carvedFrom {scs : Nat → SchedContext} {rest child : SchedContext}
    (hCarve : schedCarve scs parent budgetUs periodUs slack badFlags = some (rest, child)) :
    child.CarvedFrom (scs parent) rest ∧ child.parent = parent := by
  unfold schedCarve at hCarve
  dsimp only at hCarve
  split_ifs at hCarve
  split at hCarve
  · simp at hCarve
  rename_i hSplit
  rcases hCarve with ⟨rfl, rfl⟩
  exact ⟨⟨rfl, (rustScSplit_conserves hSplit).1⟩, rfl⟩

theorem Tables.schedSplit_run {s : Sys} (hTables : Tables s.cap) (hBenign : Benign G)
    {parentSlot untypedSlot : Nat} {allocated : Option Nat} (hRun : s.cap.running cur = true)
    (hG : ∀ a b c origin, s.cap.Owns cur a → a.slot = dest →
      b ≠ a → G s.cap (.install cur a c origin (some b))) :
    ActRun G s.cap (schedSplit s cur parentSlot untypedSlot dest budgetUs
        periodUs slack badFlags allocated).2.cap := by
  unfold schedSplit
  split
  · exact actRun_refl
  rename_i p hLook
  rcases hTables.capLookup_eq_some hRun hLook with ⟨hOwns, hSlot, _, _, _, hTyp⟩
  dsimp only
  split
  · exact actRun_refl
  split
  · split
    · exact actRun_refl
    rename_i rest child hCarve
    rcases schedCarve_carvedFrom hCarve with ⟨hCarved, hParent⟩
    refine hTables.capInstallDerivedObject_run hBenign hRun (by decide) ?_ (fun a b c => hG a b c _)
    intro b c hOwnsB hSlotB hTypB hObject hToken
    have hSame : b = p := hOwnsB.unique hOwns (hSlotB.trans hSlot.symm)
    subst hSame
    exact ⟨rfl, hObject, hCarved, hParent, hTypB, hToken⟩
  · exact actRun_refl

----
-- Creating a Task
----

/- The birth of a task, one serial at a time. -/
theorem placeBirth_eq (s : CapState) (id space : Nat) : ∃ c0 c3 c4 s1 s2,
      s1 = (Act.place ⟨space, 0⟩ c0 .birth).apply s ∧
      s2 = (Act.place ⟨space, 3⟩ c3 .birth).apply s1 ∧
      (s.placeBirth id space = s2.burn ∨ s.placeBirth id space =
          (Act.place ⟨space, capslotReplyEp⟩ c4 .birth).apply s2) ∧
      (∃ rights object, c0 = freshCap .tcb rights object s.freshSerial) ∧
      (∃ rights object, c3 = freshCap .frame rights object s1.freshSerial) ∧
      (∃ rights object, c4 = freshCap .endpoint rights object s2.freshSerial) := by
  refine ⟨_, _, freshCap .endpoint (Right.read ||| Right.write)
      (replyEpBase + id) s.burn.burn.freshSerial,
    _, _, rfl, rfl, ?_,
    ⟨Right.all, s.tcbObject id, rfl⟩,
    ⟨Right.read ||| Right.write ||| Right.exec, 0x400000, rfl⟩,
    ⟨_, _, rfl⟩⟩
  unfold placeBirth
  split
  · exact .inl rfl
  · exact .inr rfl

theorem placeBirth_run (hBenign : Benign G)
    (hRun : s.running id = true) (hSpace : (s.tasks id).cspace = some space)
    (hNull : ∀ slot < cnodeSize, (s.mem ⟨space, slot⟩).typ = .null) :
    ActRun G s (s.placeBirth id space) := by
  rcases placeBirth_eq s id space with
    ⟨c0, c3, c4, s1, s2, hS1, hS2, hEnd, ⟨_, _, rfl⟩, ⟨_, _, rfl⟩, ⟨_, _, rfl⟩⟩
  have hOwns : ∀ slot < cnodeSize, s.Owns id ⟨space, slot⟩ :=
    fun slot hSlot => ⟨hRun, hSpace, hSlot⟩
  have hFirst : ActRun G s s1 := by
    rw [hS1]
    exact actRun_single _ ⟨⟨id, hOwns 0 (by decide)⟩, rfl, ⟨rfl, rfl, rfl⟩, .inl rfl⟩
      (hBenign.place s _ _ _ (hNull 0 (by decide)))
  have hNull1 : ∀ slot < cnodeSize, slot ≠ 0 → (s1.mem ⟨space, slot⟩).typ = .null := by
    intro slot hSlot hNe
    rw [hS1]
    simp [Act.apply, place, burn, hNe, hNull slot hSlot]
  have hSecond : ActRun G s1 s2 := by
    rw [hS2]
    refine actRun_single _ ⟨⟨id, ?_⟩, rfl, ⟨rfl, rfl, rfl⟩, .inl rfl⟩
      (hBenign.place s1 _ _ _ (hNull1 3 (by decide) (by decide)))
    rw [hS1]
    exact ⟨hRun, hSpace, by simp [cnodeSize]⟩
  refine hFirst.trans (hSecond.trans ?_)
  rcases hEnd with hEnd | hEnd
  · rw [hEnd]
    exact hBenign.burn_run
  rw [hEnd]
  refine actRun_single _ ⟨⟨id, ?_⟩, rfl, ⟨rfl, rfl, rfl⟩, .inl rfl⟩ (hBenign.place s2 _ _ _ ?_)
  · rw [hS2, hS1]
    exact ⟨hRun, hSpace, by simp [capslotReplyEp, cnodeSize]⟩
  rw [hS2]
  simpa [place, burn, capslotReplyEp] using hNull1 4 (by decide) (by decide)

theorem Tables.createTask_eq (hTables : Tables s) (source : CNodeSource) :
    createTask s id source = (Act.age id).apply s ∨ ∃ space,
        ((s.tasks id).cspace = some space ∨ space = s.nextSpace) ∧
        createTask s id source = (s.openSpace id space).placeBirth id space := by
  have hFresh : birthIn { s with nextSpace := s.nextSpace + 1 } id s.nextSpace =
        (s.openSpace id s.nextSpace).placeBirth id
          s.nextSpace := by
    simp [birthIn, CapState.openSpace]
  cases source with
  | exhausted => exact .inl rfl
  | fresh => exact .inr ⟨s.nextSpace, .inr rfl, hFresh⟩
  | kernel =>
  right
  cases hSpace : (s.tasks id).cspace with
  | none =>
    refine ⟨s.nextSpace, .inr rfl, ?_⟩
    simp only [createTask, hSpace]
    exact hFresh
  | some space =>
  refine ⟨space, .inl rfl, ?_⟩
  have hMax : max s.nextSpace (space + 1) = s.nextSpace := by
    have hLt := (hTables.space id space hSpace).2
    omega
  simp only [createTask, hSpace, birthIn, CapState.openSpace, hMax]

/- What a fresh task finds in its space. -/
theorem openSpace_null (s : CapState) (id space : Nat) (slot : Nat) (hSlot : slot < cnodeSize) :
    ((s.openSpace id space).mem ⟨space, slot⟩).typ =
      .null := by
  simp [openSpace, clearSpace, hSlot, Capability.nullify]

theorem openSpace_running (space : Nat) (hFree : s.freeSlot id = true) :
    (s.openSpace id space).running id = true := by
  simp only [freeSlot, decide_eq_true_eq] at hFree
  simp [running, openSpace, setTask, clearSpace, reviveTask, hFree.2.1]

theorem openSpace_cspace (s : CapState) (id space : Nat) :
    ((s.openSpace id space).tasks id).cspace = some space := by
  simp [openSpace, setTask, clearSpace]

theorem Tables.createTask_run (hBenign : Benign G) (hTables : Tables s)
    (hFree : s.freeSlot id = true) (hOpen : ∀ space, G s (.openSpace id space)) :
    ActRun G s (createTask s id source) := by
  rcases hTables.createTask_eq source with hAge | ⟨space, hFresh, hBirth⟩
  · rw [hAge]
    exact actRun_single _ hFree (hBenign.age s id)
  rw [hBirth]
  refine ActRun.trans (actRun_single (.openSpace id space) ⟨hFree, hFresh⟩ (hOpen space)) ?_
  exact placeBirth_run hBenign (openSpace_running space hFree) (openSpace_cspace s id space)
    (fun slot hSlot => openSpace_null s id space slot hSlot)

----
-- A Space Being Filled
----

/-
  Since state `s` only the slots of `space` were written, with
  new serials, and with badges from outside. Nothing then
  descends from the capabilities in `space`.
-/
structure Hatching (s : CapState) (space : Nat) (s' : CapState) : Prop where
  outside : ∀ b, b.space ≠ space → s'.mem b = s.mem b
  badge : ∀ b, b.space = space → b.slot < cnodeSize →
    (s'.mem b).typ ≠ .null → (s'.mem b).badge = 0 ∨ ∃ p, (s'.mem b).badge = (s.mem p).serial
  serial : ∀ b, b.space = space → b.slot < cnodeSize →
    (s'.mem b).typ ≠ .null → (s'.mem b).serial = 0 ∨
      max s.nextSerial minDerivedSerial < (s'.mem b).serial
  counter : s.nextSerial ≤ s'.nextSerial

section Hatching

variable {s s' : CapState} {space : Nat}

theorem hatching_openSpace (s : CapState) (id space : Nat) :
    Hatching s space (s.openSpace id space) where
  outside := by
    intro b hB
    simp [openSpace, clearSpace, setTask, hB]
  badge := by
    rintro ⟨_, slot⟩ rfl hSlot hUsed
    exact absurd (openSpace_null s id _ slot hSlot) hUsed
  serial := by
    rintro ⟨_, slot⟩ rfl hSlot hUsed
    exact absurd (openSpace_null s id _ slot hSlot) hUsed
  counter := le_refl s.nextSerial

theorem Hatching.burn (hHatch : Hatching s space s') : Hatching s space s'.burn where
  __ := hHatch
  counter := by
    have hOld := hHatch.counter
    change s.nextSerial ≤ (assignFreshSerial s'.nextSerial).2
    rcases assignFreshSerial_cases s'.nextSerial with ⟨_, hNext⟩ | ⟨_, hNext⟩ <;> omega

/- One more slot of the space is written. -/
theorem Hatching.write (hHatch : Hatching s space s') {a : Addr} {c : Capability}
    (hMem : s''.mem = update s'.mem a c)
    (hNext : s''.nextSerial = s'.burn.nextSerial) (hSpace : a.space = space)
    (hSerial : c.serial = s'.freshSerial)
    (hBadge : c.badge = 0 ∨ ∃ p, p.space ≠ space ∧ c.badge = (s'.mem p).serial) :
    Hatching s space s'' where
  outside := by
    intro b hB
    have hNe : b ≠ a := by
      rintro rfl
      exact hB hSpace
    rw [hMem, update_of_ne hNe]
    exact hHatch.outside b hB
  badge := by
    intro b hB hSlot
    rw [hMem]
    rcases eq_or_ne b a with rfl | hEq
    · rw [update_self]
      intro _
      rcases hBadge with hZero | ⟨p, hP, hFrom⟩
      · exact .inl hZero
      · exact .inr ⟨p, by rw [hFrom, hHatch.outside p hP]⟩
    · rw [update_of_ne hEq]
      exact hHatch.badge b hB hSlot
  serial := by
    intro b hB hSlot
    rw [hMem]
    rcases eq_or_ne b a with rfl | hEq
    · rw [update_self, hSerial]
      have hOld := hHatch.counter
      unfold freshSerial
      rcases assignFreshSerial_cases s'.nextSerial with ⟨hFresh, _⟩ | ⟨hFresh, _⟩ <;> omega
    · rw [update_of_ne hEq]
      exact hHatch.serial b hB hSlot
  counter := by
    rw [hNext]
    exact hHatch.burn.counter

theorem Hatching.placeBirth (hHatch : Hatching s space s') (id : Nat) :
    Hatching s space (s'.placeBirth id space) := by
  have hPlace : ∀ (t : CapState) (slot : Nat) (c : Capability),
        Hatching s space t → c.serial = t.freshSerial →
        c.badge = 0 →
        Hatching s space ((Act.place ⟨space, slot⟩ c .birth).apply t) := by
    intro t slot c hT hSerial hBadge
    exact hT.write rfl rfl rfl hSerial (.inl hBadge)
  rcases placeBirth_eq s' id space with
    ⟨c0, c3, c4, s1, s2, hS1, hS2, hEnd, ⟨_, _, rfl⟩, ⟨_, _, rfl⟩, ⟨_, _, rfl⟩⟩
  have hFirst : Hatching s space s1 := by
    rw [hS1]
    exact hPlace s' 0 _ hHatch rfl rfl
  have hSecond : Hatching s space s2 := by
    rw [hS2]
    exact hPlace s1 3 _ hFirst rfl rfl
  rcases hEnd with hEnd | hEnd
  · rw [hEnd]
    exact hSecond.burn
  · rw [hEnd]
    exact hPlace s2 capslotReplyEp _ hSecond rfl rfl

end Hatching

----
-- Spawn and Fork
----

/- The birth writes the slots 0, 3 and 4 only. -/
theorem placeBirth_mem (s : CapState) (id space : Nat) {b : Addr}
    (hB : b.space ≠ space ∨ (b.slot ≠ 0 ∧ b.slot ≠ 3 ∧ b.slot ≠ capslotReplyEp)) :
    (s.placeBirth id space).mem b = s.mem b := by
  have hNe : ∀ slot, slot = 0 ∨ slot = 3 ∨ slot = capslotReplyEp → b ≠ ⟨space, slot⟩ := by
    rintro slot hSlot rfl
    rcases hB with hB | hB
    · exact hB rfl
    · simp only at hB
      omega
  rcases placeBirth_eq s id space with ⟨c0, c3, c4, s1, s2, hS1, hS2, hEnd, _⟩
  have hFirst : s1.mem b = s.mem b := by
    rw [hS1]
    exact update_of_ne (hNe 0 (by simp)) _ _
  have hSecond : s2.mem b = s.mem b := by
    rw [hS2, ← hFirst]
    exact update_of_ne (hNe 3 (by simp)) _ _
  rcases hEnd with hEnd | hEnd
  · rw [hEnd]
    exact hSecond
  · rw [hEnd, ← hSecond]
    exact update_of_ne (hNe _ (by simp)) _ _

theorem placeBirth_tasks (s : CapState) (id space : Nat) : (s.placeBirth id space).tasks = s.tasks ∧
      (s.placeBirth id space).maxTasks = s.maxTasks := by
  unfold placeBirth
  split <;> exact ⟨rfl, rfl⟩

theorem Tables.actRun (hTables : Tables s) (hRun : ActRun G s s') : Tables s' :=
  Lib.Run.invariant Tables (fun _ act hOld hOk => hOld.act act hOk.1) hRun hTables

/-
  The copies of a fork fill empty slots of the child, from
  slots of the parent.
-/
theorem cloneLoop_run (hBenign : Benign G) {parentSpace childSpace : Nat}
    (hNe : parentSpace ≠ childSpace) (slots : List Nat) (hChild : s.running child = true)
    (hChildSpace : (s.tasks child).cspace = some childSpace) (hParent : s.running parent = true)
    (hParentSpace : (s.tasks parent).cspace = some parentSpace)
    (hNodup : slots.Nodup) (hSlots : ∀ slot ∈ slots, slot < cnodeSize)
    (hNull : ∀ slot ∈ slots, slot ≠ capslotReplyEp → (s.mem ⟨childSpace, slot⟩).typ = .null) :
    ActRun G s (cloneLoop child parentSpace childSpace cnodeSize slots s).2 ∧
      (cloneLoop child parentSpace childSpace cnodeSize slots s).2.tasks = s.tasks ∧
      (cloneLoop child parentSpace childSpace cnodeSize slots s).2.maxTasks = s.maxTasks ∧
      ∀ s0, Hatching s0 childSpace s → Hatching s0 childSpace
          (cloneLoop child parentSpace childSpace cnodeSize slots s).2 := by
  induction slots generalizing s with
  | nil => exact ⟨actRun_refl, rfl, rfl, fun _ hHatch => hHatch⟩
  | cons slot _ ih =>
  rw [List.nodup_cons] at hNodup
  have hRestSlots := fun x hx => hSlots x (List.mem_cons_of_mem slot hx)
  have hRestNull := fun x hx => hNull x (List.mem_cons_of_mem slot hx)
  unfold cloneLoop
  by_cases hCopy : cloned slot (s.mem ⟨parentSpace, slot⟩) = true
  · rw [if_pos hCopy]
    simp only [cloned, decide_eq_true_eq] at hCopy
    split
    · exact ⟨actRun_refl, rfl, rfl, fun _ hHatch => hHatch⟩
    have hEmpty := hNull slot (by simp) hCopy.1
    have hOwns : s.Owns child ⟨childSpace, slot⟩ := ⟨hChild, hChildSpace, hSlots slot (by simp)⟩
    have hSource : s.Owns parent ⟨parentSpace, slot⟩ :=
      ⟨hParent, hParentSpace, hSlots slot (by simp)⟩
    cases hGrant : rustCapGrantInto s.mem s.nextSerial (some ⟨parentSpace, slot⟩) (some childSpace)
        cnodeSize slot Right.all with
    | none => exact ih hChild hChildSpace hParent hParentSpace hNodup.2 hRestSlots hRestNull
    | some r =>
      rcases rustCapGrantInto_eq_some hGrant with ⟨rfl, _, _, _, _, hFresh⟩
      rw [commit_some]
      have hStep := actRun_single (G := G) (.install child ⟨childSpace, slot⟩
            (derivedCap (s.mem ⟨parentSpace, slot⟩)
              Right.all (assignFreshSerial s.nextSerial).1) .clone
            (some ⟨parentSpace, slot⟩))
          ⟨hOwns, rfl, hFresh, fun _ => by omega, ⟨⟨parent, hSource⟩, hCopy.2.1, hCopy.2.2.2,
              rfl, rfl, hasRights_and _ _, rfl, rfl⟩⟩
          (hBenign.install _ _ _ _ _ _ hEmpty)
      have hNext := ih (s := (Act.install child ⟨childSpace, slot⟩
          (derivedCap (s.mem ⟨parentSpace, slot⟩)
            Right.all (assignFreshSerial s.nextSerial).1) .clone
          (some ⟨parentSpace, slot⟩)).apply s)
        hChild hChildSpace hParent hParentSpace
        hNodup.2 hRestSlots (by
          intro x hx hReply
          have hOther : (⟨childSpace, x⟩ : Addr) ≠ ⟨childSpace, slot⟩ := by
            rintro hEq
            cases hEq
            exact hNodup.1 hx
          rw [Act.install_mem, update_of_ne hOther]
          exact hRestNull x hx hReply)
      refine ⟨hStep.trans hNext.1, hNext.2.1, hNext.2.2.1, ?_⟩
      intro s0 hHatch
      exact hNext.2.2.2 s0 (hHatch.write rfl rfl rfl rfl (.inr ⟨⟨parentSpace, slot⟩, hNe, rfl⟩))
  · rw [if_neg hCopy]
    exact ih hChild hChildSpace hParent hParentSpace hNodup.2 hRestSlots hRestNull

/- The end of a creation that succeeded. -/
theorem openSpace_placeBirth (space : Nat) (hFree : s.freeSlot id = true) :
    ((s.openSpace id space).placeBirth id space).running id = true ∧
      (((s.openSpace id space).placeBirth id space).tasks id).cspace = some space ∧
      Hatching s space ((s.openSpace id space).placeBirth id space) := by
  rcases placeBirth_tasks (s.openSpace id space) id space with ⟨hTasks, hMax⟩
  refine ⟨?_, ?_, (hatching_openSpace s id space).placeBirth id⟩
  · unfold running
    rw [hTasks, hMax]
    exact openSpace_running space hFree
  · rw [hTasks]
    exact openSpace_cspace s id space

theorem abandonTask_dead (hDead : (s.tasks id).state = .dead) : abandonTask s id = s := by
  unfold abandonTask setTask
  have hSame : { s.tasks id with state := TaskState.dead } = s.tasks id := by
    rw [← hDead]
  rw [hSame, update_eq_self]

theorem age_dead (s : CapState) (id : Nat) : (((Act.age id).apply s).tasks id).state = .dead := by
  simp [Act.apply, setTask]

theorem Tables.spawnAborted_run (hBenign : Benign G) (hTables : Tables s)
    (hFree : s.freeSlot id = true) (hOpen : ∀ space, G s (.openSpace id space))
    (hAbandon : ∀ space s', Hatching s space s' → (s'.tasks id).cspace = some space →
      G s' (.abandon id)) :
    ActRun G s (spawnAborted s id source) := by
  have hCreate : ActRun G s (createTask s id source) := hTables.createTask_run hBenign hFree hOpen
  unfold spawnAborted
  rcases hTables.createTask_eq source with hAge | ⟨space, _, hBirth⟩
  · rw [hAge] at hCreate ⊢
    rw [abandonTask_dead (age_dead s id)]
    exact hCreate
  rw [hBirth] at hCreate ⊢
  rcases openSpace_placeBirth space hFree with ⟨hRun, hSpace, hHatch⟩
  simp only [freeSlot, decide_eq_true_eq] at hFree
  exact hCreate.trans (actRun_single (.abandon id) ⟨hFree.1, hRun⟩ (hAbandon space _ hHatch hSpace))

theorem Tables.capCloneCspace_run (hBenign : Benign G) {s : Sys} (hTables : Tables s.cap)
    (hNe : parent ≠ child) (hParent : s.cap.running parent = true)
    (hChild : s.cap.running child = true) (hSpace : (s.cap.tasks child).cspace = some space)
    (hNull : ∀ slot < cnodeSize, slot ≠ 0 → slot ≠ 3 → slot ≠ capslotReplyEp →
      (s.cap.mem ⟨space, slot⟩).typ = .null) :
    ActRun G s.cap (capCloneCspace s parent child).2.cap ∧
      (capCloneCspace s parent child).2.cap.tasks = s.cap.tasks ∧
      (capCloneCspace s parent child).2.cap.maxTasks = s.cap.maxTasks ∧
      ∀ s0, Hatching s0 space s.cap → Hatching s0 space (capCloneCspace s parent child).2.cap := by
  rcases hTables.running_cspace hParent with ⟨from', hFrom, _⟩
  have hSz := hTables.cspaceSz child (by simp [hSpace])
  have hSz' := hTables.cspaceSz parent (by simp [hFrom])
  have hSpaces : from' ≠ space := by
    rintro rfl
    exact hNe (hTables.own parent child _ hFrom hSpace)
  have hLoop := cloneLoop_run hBenign hSpaces
    ((List.range cnodeSize).drop kernelReservedCaps) hChild
    hSpace hParent hFrom
    ((List.drop_sublist _ _).nodup List.nodup_range)
    (fun slot hMem => List.mem_range.mp (List.mem_of_mem_drop hMem))
    (by
      intro slot hMem hReply
      have hSlot := List.mem_range.mp (List.mem_of_mem_drop hMem)
      have hFloor : kernelReservedCaps ≤ slot := by
        rcases List.mem_iff_getElem.mp hMem with ⟨i, _, hi⟩
        simp only [List.getElem_drop, List.getElem_range] at hi
        omega
      simp only [kernelReservedCaps] at hFloor
      exact hNull slot hSlot (by omega) (by omega) hReply)
  unfold capCloneCspace
  simp only [hFrom, hSpace, hSz, hSz', min_self]
  split
  · exact ⟨actRun_refl, rfl, rfl, fun _ hHatch => hHatch⟩
  split
  · exact hLoop
  split
  · exact hLoop
  · exact hLoop

/-
  A fork: the child is created and filled, and abandoned when
  something on the way fails.
-/
theorem Tables.hFork_run (hBenign : Benign G) {s : Sys}
    (hTables : Tables s.cap) (hParent : s.cap.running parent = true)
    (hFree : s.cap.freeSlot child = true) (hOpen : ∀ space, G s.cap (.openSpace child space))
    (hAbandon : ∀ space s', Hatching s.cap space s' → (s'.tasks child).cspace = some space →
      G s' (.abandon child)) :
    ActRun G s.cap (hFork s parent child source).2.cap := by
  have hCreate : ActRun G s.cap (createTask s.cap child source) :=
    hTables.createTask_run hBenign hFree hOpen
  unfold hFork
  dsimp only
  rcases hTables.createTask_eq source with hAge | ⟨space, hFresh, hBirth⟩
  · rw [hAge] at hCreate ⊢
    rw [if_pos (age_dead s.cap child)]
    exact hCreate
  rcases openSpace_placeBirth space hFree with ⟨hRun, hSpace, hHatch⟩
  rcases placeBirth_tasks (s.cap.openSpace child space) child space with ⟨hTasks, hMax⟩
  have hNull : ∀ slot < cnodeSize, slot ≠ 0 → slot ≠ 3 → slot ≠ capslotReplyEp →
        (((s.cap.openSpace child space).placeBirth child space).mem ⟨space, slot⟩).typ = .null := by
    intro slot hSlot h0 h3 hReply
    rw [placeBirth_mem _ _ _ (.inr ⟨h0, h3, hReply⟩)]
    exact openSpace_null s.cap child space slot hSlot
  rw [← hBirth] at hRun hSpace hHatch hTasks hMax hNull
  simp only [freeSlot, decide_eq_true_eq] at hFree
  -- The parent is another task and is still running.
  have hNe : parent ≠ child := by
    rintro rfl
    simp only [running, decide_eq_true_eq] at hParent
    exact hParent.2 hFree.2.2
  have hParent' : (createTask s.cap child source).running parent =
        true := by
    unfold running at hParent ⊢
    rw [hTasks, hMax]
    simpa [CapState.openSpace, CapState.setTask, CapState.clearSpace, hNe] using hParent
  have hLive : ((createTask s.cap child source).tasks child).state ≠
        .dead := by
    simp only [running, decide_eq_true_eq] at hRun
    exact hRun.2
  rw [if_neg hLive]
  rcases Tables.capCloneCspace_run hBenign (s := { s with cap := createTask s.cap child source })
      (hTables.actRun hCreate) hNe hParent' hRun hSpace
      hNull with
    ⟨hClone, hSame, hSameMax, hStill⟩
  split
  · exact hCreate.trans hClone
  refine hCreate.trans (hClone.trans ?_)
  refine actRun_single (.abandon child) ⟨hFree.1, ?_⟩ (hAbandon space _ (hStill _ hHatch) ?_)
  · unfold running
    rw [hSame, hSameMax]
    exact hRun
  · rw [hSame]
    exact hSpace

----
-- Death
----

/- Since state `s` slots were emptied and nothing else. -/
structure Closing (s s' : CapState) : Prop where
  tasks : s'.tasks = s.tasks
  maxTasks : s'.maxTasks = s.maxTasks
  uncounted : s'.uncounted = s.uncounted
  mem : ∀ b, s'.mem b = s.mem b ∨ s'.mem b = Capability.nullify

theorem Closing.refl (s : CapState) : Closing s s where
  tasks := rfl
  maxTasks := rfl
  uncounted := rfl
  mem := fun _ => .inl rfl

theorem Closing.trans (hFirst : Closing s s') (hSecond : Closing s' s'') : Closing s s'' where
  tasks := hSecond.tasks.trans hFirst.tasks
  maxTasks := hSecond.maxTasks.trans hFirst.maxTasks
  uncounted := hSecond.uncounted.trans hFirst.uncounted
  mem := by
    intro b
    rcases hSecond.mem b with hB | hB
    · rw [hB]
      exact hFirst.mem b
    · exact .inr hB

theorem closing_erase (s : CapState) (pid : Nat) (a : Addr) : Closing s (s.erase pid a) where
  tasks := by simp
  maxTasks := by simp
  uncounted := by simp
  mem := by
    intro b
    unfold erase
    split
    · exact .inl rfl
    rcases eq_or_ne b a with rfl | hB
    · exact .inr (update_self _ _ _)
    · exact .inl (update_of_ne hB _ _)

theorem Closing.running (hClosing : Closing s s') : s'.running id = s.running id :=
  running_congr hClosing.tasks hClosing.maxTasks id

theorem pipeCloseTaskEnds_run (passes : Nat) {s : Sys}
    (hId : id ≠ 0) (hTables : Tables s.cap) (hRun : s.cap.running id = true)
    (hSpace : (s.cap.tasks id).cspace = some space)
    (hErase : ∀ s' a, Closing s.cap s' → s'.Owns id a →
      (s'.mem a).typ = .pipe → G s' (.erase id a)) :
    ActRun G s.cap (pipeCloseTaskEnds id space cnodeSize passes s).cap ∧
      Closing s.cap (pipeCloseTaskEnds id space cnodeSize passes s).cap := by
  induction passes generalizing s with
  | zero => exact ⟨actRun_refl, Closing.refl s.cap⟩
  | succ _ ih =>
  unfold pipeCloseTaskEnds
  split
  · exact ⟨actRun_refl, Closing.refl s.cap⟩
  rename_i slot hFound
  rcases firstIndex_some hFound with ⟨hPipe, hSlot⟩
  simp only [decide_eq_true_eq] at hPipe
  have hOwns : s.cap.Owns id ⟨space, slot⟩ := ⟨hRun, hSpace, hSlot⟩
  have hMax : id < s.cap.maxTasks := by
    simp only [running, decide_eq_true_eq] at hRun
    exact hRun.1
  have hConsume : (capConsumeSlotOf s.cap id slot).2 = s.cap.erase id ⟨space, slot⟩ := by
    have hSz := hTables.cspaceSz id (by simp [hSpace])
    simp only [capConsumeSlotOf, hSpace, hSz]
    rw [if_neg (by omega), if_neg (by omega)]
  have hClosing := closing_erase s.cap id ⟨space, slot⟩
  have hStep : ActRun G s.cap (s.cap.erase id ⟨space, slot⟩) :=
    actRun_single (.erase id ⟨space, slot⟩) hOwns (hErase _ _ (Closing.refl s.cap) hOwns hPipe)
  rw [hConsume]
  have hNext := ih
    (s := { cap := s.cap.erase id ⟨space, slot⟩
            obj :=
              { s.obj with
                pipes := pipeEndUnref s.obj.pipes (s.cap.mem ⟨space, slot⟩).object
                    ((s.cap.mem ⟨space, slot⟩).rights &&& Right.write ≠ 0) } })
    (hTables.act (.erase id ⟨space, slot⟩) hOwns)
    (hClosing.running.trans hRun)
    (by simpa using hSpace)
    (fun s' a hC => hErase s' a (hClosing.trans hC))
  exact ⟨hStep.trans hNext.1, hClosing.trans hNext.2⟩

theorem Tables.taskTeardown_run {s : Sys} (hTables : Tables s.cap) {scratch : Scratch} (hId : id ≠ 0)
    (hErase : ∀ s' a, Closing s.cap s' → s'.Owns id a → (s'.mem a).typ = .pipe → G s' (.erase id a))
    (hBury : ∀ s', Closing s.cap s' → G s' (.bury id scratch)) :
    ActRun G s.cap (taskTeardown s id scratch).cap := by
  unfold taskTeardown
  split
  · exact actRun_refl
  rename_i hLive
  rcases hTables.live id hLive with ⟨hSome, hMax⟩
  have hRun : s.cap.running id = true := by
    simp [running, hLive, hMax]
  rcases hTables.running_cspace hRun with ⟨space, hSpace, _⟩
  have hSz := hTables.cspaceSz id hSome
  simp only [hSpace, hSz]
  rw [if_neg (by omega)]
  rcases pipeCloseTaskEnds_run cnodeSize hId hTables hRun hSpace hErase with ⟨hClose, hClosing⟩
  exact hClose.trans (actRun_single (.bury id scratch)
      ⟨hId, hClosing.running.trans hRun⟩ (hBury _ hClosing))

end Decompose

end Horus

import Horus.Kernel.Serials

/-
  Revocation over whole histories.

  The log remembers every derivation, while a revocation only
  sees the badges that are still in slots. The two agree as
  long as no step takes out a capability that lies between a
  live parent and a live child: reparenting joins the two up
  when a task dies, but writing over a slot or closing it does
  not.

  Main declarations:
    * `Held`, `ChildOf`, `Interior`
    * `Hist`, `Tracked`
    * `Keeps`, `Tracked.act`
    * `Undisturbed`, `revocation_complete`
-/

namespace Horus

open Function
open Relation

variable {origin : Origin} {b p a : Addr} {K : Addr → Prop}
    {s s' : CapState} {pid cur id space : Nat}

namespace CapState

/- A live space or the root table holds a capability in `a`. -/
def Held (s : CapState) (a : Addr) : Prop := s.Visible a ∧ (s.mem a).typ ≠ .null

/- The badge in `b` is the serial in `p`. -/
def ChildOf (s : CapState) (b p : Addr) : Prop :=
  s.Held b ∧ s.Held p ∧ Linked (s.mem b) ∧ (s.mem p).serial = (s.mem b).badge

/- A capability with a live parent and a live child. -/
def Interior (s : CapState) (a : Addr) : Prop := (∃ b, s.ChildOf b a) ∧ ∃ p, s.ChildOf a p

end CapState

section Links

variable {s s' : CapState} {a b p : Addr}

theorem not_interior_of_null (hNull : (s.mem a).typ = .null) : ¬ s.Interior a := by
  rintro ⟨⟨b, hChild⟩, _⟩
  exact hChild.2.1.2 hNull

/- Links between slots that stay as they are. -/
theorem CapState.ChildOf.mono (hChild : s.ChildOf b p) (hB : s'.Held b ∧ s'.mem b = s.mem b)
    (hP : s'.Held p ∧ s'.mem p = s.mem p) : s'.ChildOf b p := by
  refine ⟨hB.1, hP.1, ?_, ?_⟩
  · rw [hB.2]
    exact hChild.2.2.1
  · rw [hB.2, hP.2]
    exact hChild.2.2.2

/- A chain of slots is a chain of badges. -/
theorem below_of_childOf (hPath : TransGen s.ChildOf b p) :
    Below s.mem s.Visible (s.mem p).serial b := by
  induction hPath using TransGen.head_induction_on with refine ⟨hChild.1.1, hChild.2.2.1, ?_⟩
  | single hChild => rw [hChild.2.2.2]
  | @head x y hChild _ ih =>
    rw [← hChild.2.2.2]
    exact ReflTransGen.head ⟨y, ih.1, ih.2.1, rfl, rfl⟩ ih.2.2

theorem childOf_of_below (hHeld : s.Held p) (hBelow : Below s.mem s.Visible (s.mem p).serial b) :
    TransGen s.ChildOf b p := by
  rcases hBelow with ⟨hVisible, hLinked, hReach⟩
  generalize hBadge : (s.mem b).badge = k at hReach
  induction hReach using ReflTransGen.head_induction_on generalizing b with
  | refl => exact TransGen.single ⟨⟨hVisible, hLinked.1⟩, hHeld, hLinked, hBadge.symm⟩
  | head hStep _ ih =>
    rcases hStep with ⟨z, hZ, hLinkedZ, hSerial, hUp⟩
    exact TransGen.head ⟨⟨hVisible, hLinked.1⟩, ⟨hZ, hLinkedZ.1⟩, hLinked,
        hSerial.trans hBadge.symm⟩
      (ih hZ hLinkedZ hUp)

end Links

/- Serial `x` was made with serial `y` as its source. -/
def Hist (log : List Derivation) (x y : Nat) : Prop :=
  ∃ d ∈ log, d.made.serial = x ∧ d.source.map Capability.serial = some y

instance (log : List Derivation) (x y : Nat) : Decidable (Hist log x y) := by
  unfold Hist
  infer_instance

/- What was made from what is still linked, if both are left. -/
structure Tracked (s : CapState) : Prop where
  younger : ∀ x y, Hist s.log x y → y ≠ 0 ∧ y < x ∧ x ≤ max s.nextSerial minDerivedSerial
  chain : ∀ b p, s.Held b → s.Held p → TransGen (Hist s.log) (s.mem b).serial (s.mem p).serial →
    TransGen s.ChildOf b p

theorem hist_cons_none (origin : Origin) (c : Capability) (log : List Derivation) :
    Hist (⟨origin, none, c⟩ :: log) = Hist log := by
  funext x y
  simp [Hist]

theorem hist_cons_some {src c : Capability} {log : List Derivation} {x y : Nat}
    (hHist : Hist (⟨origin, some src, c⟩ :: log) x y) :
    Hist log x y ∨ x = c.serial ∧ y = src.serial := by
  rcases hHist with ⟨d, hMem, rfl, hSource⟩
  rcases List.mem_cons.mp hMem with rfl | hOld
  · exact .inr ⟨rfl, (Option.some.inj hSource).symm⟩
  · exact .inl ⟨d, hOld, rfl, hSource⟩

section Tracked

variable {s s' : CapState} (hTracked : Tracked s)

include hTracked

/-
  Chains between kept slots survive, if no chain goes through
  a slot that is not kept.
-/
theorem Tracked.keep (hKeep : ∀ b, s.Held b → K b → s'.Held b ∧ s'.mem b = s.mem b)
    (hGap : ∀ x a y, K x → s.ChildOf x a → ¬ K a → ¬ s.ChildOf a y) (hB : s.Held b ∧ K b) (hP : s.Held p ∧ K p)
    (hHist : TransGen (Hist s.log) (s.mem b).serial (s.mem p).serial) :
    TransGen s'.ChildOf b p := by
  have hPath := Lib.transGen_keep hGap hP.2 (hTracked.chain b p hB.1 hP.1 hHist) hB.2
  refine TransGen.mono ?_ _ _ hPath
  rintro x y ⟨hX, hY, hChild⟩
  exact hChild.mono (hKeep x hChild.1 hX) (hKeep y hChild.2.1 hY)

theorem Tracked.congr_younger (hLog : s'.log = s.log) (hNext : s.nextSerial ≤ s'.nextSerial)
    {x y : Nat} (hHist : Hist s'.log x y) :
    y ≠ 0 ∧ y < x ∧ x ≤ max s'.nextSerial minDerivedSerial := by
  rw [hLog] at hHist
  have hOld := hTracked.younger x y hHist
  omega

end Tracked

----
-- Writing and Emptying One Slot
----

theorem gap_of_not_interior (hFree : ¬ s.Interior a) (x d y : Addr) (_ : x ≠ a)
    (hChild : s.ChildOf x d) (hD : ¬ d ≠ a) : ¬ s.ChildOf d y := by
  rw [not_not] at hD
  subst hD
  exact fun hUp => hFree ⟨⟨x, hChild⟩, ⟨y, hUp⟩⟩

section Write

variable {s s' : CapState} {a : Addr} {c : Capability}

theorem held_of_update (hMem : s'.mem = update s.mem a c)
    (hVisible : s'.Visible = s.Visible) (hB : b ≠ a) :
    (s'.Held b ↔ s.Held b) ∧ s'.mem b = s.mem b := by
  have hSame : s'.mem b = s.mem b := by
    rw [hMem, update_of_ne hB]
  refine ⟨?_, hSame⟩
  unfold CapState.Held
  rw [hVisible, hSame]

/- Nothing in the log has the serial that comes next. -/
theorem Tracked.not_hist_fresh (hTracked : Tracked s) (k : Nat) :
    ¬ Hist s.log k s.freshSerial ∧ ¬ Hist s.log s.freshSerial k := by
  constructor <;> intro hHist <;>
    have hOld := hTracked.younger _ _ hHist <;>
    rcases freshSerial_cases s with hZero | hNew <;> omega

/- Chains between the other slots survive the write. -/
theorem Tracked.others (hTracked : Tracked s) (hMem : s'.mem = update s.mem a c)
    (hVisible : s'.Visible = s.Visible) (hFree : ¬ s.Interior a) (hB : s.Held b ∧ b ≠ a) (hP : s.Held p ∧ p ≠ a)
    (hHist : TransGen (Hist s.log) (s.mem b).serial (s.mem p).serial) :
    TransGen s'.ChildOf b p := by
  refine hTracked.keep ?_ (gap_of_not_interior hFree) hB hP hHist
  intro d hD hNe
  rcases held_of_update hMem hVisible hNe with ⟨hHeld, hSame⟩
  exact ⟨hHeld.mpr hD, hSame⟩

/- A record that was made from no other. -/
theorem Tracked.writeFresh (hTracked : Tracked s)
    (hMem : s'.mem = update s.mem a c) (hVisible : s'.Visible = s.Visible)
    (hNext : s.nextSerial ≤ s'.nextSerial) (hLog : Hist s'.log = Hist s.log)
    (hSerial : c.serial = s.freshSerial) (hFree : ¬ s.Interior a) : Tracked s' where
  younger := by
    intro x y hHist
    rw [hLog] at hHist
    have hOld := hTracked.younger x y hHist
    omega
  chain := by
    intro b p hB hP hHist
    have hNew : (s'.mem a).serial = s.freshSerial := by
      rw [hMem, update_self, hSerial]
    rw [hLog] at hHist
    have hNeB : b ≠ a := by
      rintro rfl
      rw [hNew] at hHist
      rcases TransGen.head'_iff.mp hHist with ⟨k, hStep, _⟩
      exact (hTracked.not_hist_fresh k).2 hStep
    have hNeP : p ≠ a := by
      rintro rfl
      rw [hNew] at hHist
      rcases TransGen.tail'_iff.mp hHist with ⟨k, _, hStep⟩
      exact (hTracked.not_hist_fresh k).1 hStep
    rcases held_of_update hMem hVisible hNeB with ⟨hHeldB, hSameB⟩
    rcases held_of_update hMem hVisible hNeP with ⟨hHeldP, hSameP⟩
    rw [hSameB, hSameP] at hHist
    exact hTracked.others hMem hVisible hFree ⟨hHeldB.mp hB, hNeB⟩ ⟨hHeldP.mp hP, hNeP⟩ hHist

/- A record that was made from the one in `e`. -/
theorem Tracked.writeDerived (hTracked : Tracked s) (hSound : Sound s)
    (hMem : s'.mem = update s.mem a c) (hVisible : s'.Visible = s.Visible)
    (hNext : s.burn.nextSerial ≤ s'.nextSerial) {e : Addr}
    (hLog : ∀ x y, Hist s'.log x y → Hist s.log x y ∨ x = c.serial ∧ y = (s.mem e).serial)
    (hSerial : c.serial = s.freshSerial) (hFresh : s.freshSerial ≠ 0) (hE : s.Visible e)
    (hDerived : DerivedFrom s e c origin) (hFree : ¬ s.Interior a)
    (hSame : e = a → ∀ p, ¬ s.ChildOf a p) : Tracked s' := by
  have hNew : s'.mem a = c := by
    rw [hMem, update_self]
  have hHeldE : s.Held e := ⟨hE, hDerived.used⟩
  have hBadge := hDerived.badge
  have hNamed := hDerived.named
  have hLinked : Linked (s'.mem a) := by
    rw [hNew]
    refine ⟨?_, by omega, by omega⟩
    rw [hDerived.typ]
    exact hDerived.used
  have hOld := hSound.lt_fresh e hFresh
  have hCounter := freshSerial_cases s
  have hLe := burn_counter s
  refine ⟨?_, ?_⟩
  · intro x y hHist
    rcases hLog x y hHist with hThen | ⟨rfl, rfl⟩
    · have hThen' := hTracked.younger x y hThen
      omega
    · omega
  intro b p hB hP hHist
  have hNeP : p ≠ a := by
    rintro rfl
    rw [hNew, hSerial] at hHist
    rcases TransGen.tail'_iff.mp hHist with ⟨k, _, hStep⟩
    rcases hLog _ _ hStep with hThen | ⟨_, hEq⟩
    · exact (hTracked.not_hist_fresh k).1 hThen
    · omega
  rcases held_of_update hMem hVisible hNeP with ⟨hHeldP, hSameP⟩
  have hPaths := Lib.transGen_addSource (r := Hist s.log)
    hLog (by rw [hSerial]; exact hTracked.not_hist_fresh)
    (by omega) hHist
  by_cases hB' : b = a
  · subst hB'
    -- A chain from the new record goes on from its source.
    rw [hNew] at hPaths
    rcases hPaths with ⟨hNe, _⟩ | ⟨_, hEnd | hRest⟩
    · exact absurd rfl hNe
    · refine TransGen.single ⟨hB, hP, hLinked, ?_⟩
      rw [hNew, hBadge]
      exact hEnd
    rw [hSameP] at hRest
    have hNeE : e ≠ b := by
      intro hEq
      rcases TransGen.head'_iff.mp (hTracked.chain e p hHeldE (hHeldP.mp hP) hRest) with
        ⟨k, hStep, _⟩
      rw [hEq] at hStep
      exact hSame hEq k hStep
    rcases held_of_update hMem hVisible hNeE with ⟨hStill, hSameE⟩
    refine TransGen.head ⟨hB, hStill.mpr hHeldE, hLinked, ?_⟩ (hTracked.others hMem hVisible hFree
        ⟨hHeldE, hNeE⟩ ⟨hHeldP.mp hP, hNeP⟩ hRest)
    rw [hNew, hSameE, hBadge]
  · rcases held_of_update hMem hVisible hB' with ⟨hHeldB, hSameB⟩
    rcases hPaths with ⟨_, hThen⟩ | ⟨hEq, _⟩
    · rw [hSameB, hSameP] at hThen
      exact hTracked.others hMem hVisible hFree ⟨hHeldB.mp hB, hB'⟩ ⟨hHeldP.mp hP, hNeP⟩ hThen
    · rw [hSameB] at hEq
      have hLt := (hSound.lt_fresh b hFresh).1
      omega

end Write

----
-- Every Action
----

/-
  What must not be taken out: a capability between a live
  parent and a live child. A capability without a serial is
  revoked by object, so there the object says what goes.
-/
def Keeps (s : CapState) : Act → Prop
  | .install _ a _ _ src => ¬ s.Interior a ∧ (src = some a → ∀ p, ¬ s.ChildOf a p)
  | .place a _ _ => ¬ s.Interior a
  | .erase _ a => ¬ s.Interior a
  | .sweep _ a => (s.mem a).serial = 0 → ∀ b, (s.mem b).object = (s.mem a).object → ¬ s.Interior b
  | .abandon id => ∀ a, s.Owns id a → ∀ b, ¬ s.ChildOf b a
  | _ => True

theorem benign_keeps : Benign Keeps where
  burn := fun _ => trivial
  age := fun _ _ => trivial
  install := by
    intro s pid a c origin src hNull
    exact ⟨not_interior_of_null hNull, fun _ _ hChild => hChild.1.2 hNull⟩
  place := fun s a c origin hNull => not_interior_of_null hNull

section Actions

variable {s : CapState} (hTracked : Tracked s) (hSound : Sound s) (hTables : Tables s)

include hSound hTables

/- What other actions leave in sight was there before. -/
theorem Sound.act_held (act : Act) (hOk : act.Ok s) (hWrites : act.writes = false)
    (hB : (act.apply s).Held b) : s.Held b ∧ ((act.apply s).mem b).serial = (s.mem b).serial := by
  have hVisible : s.Visible b := by
    have hIn := hB.1
    cases act with
    | install | place => cases hWrites
    | burn | sweep => exact hIn
    | erase pid a => rwa [visible_congr (s := s) (by simp [Act.apply]) (by simp [Act.apply])] at hIn
    | openSpace id space =>
      rcases (hTables.visible_openSpace hOk.1 hOk.2 b).mp hIn with hOld | ⟨rfl, hSlot⟩
      · exact hOld
      · exact absurd (openSpace_null s id b.space b.slot hSlot) hB.2
    | age | abandon => exact ((hTables.visible_setDead (hTables.act _ hOk) rfl rfl rfl b).mp hIn).1
    | bury id scratch =>
      exact ((hTables.visible_setDead (hTables.act _ hOk) (bury_tasks s id scratch)
        (bury_maxTasks s id scratch) rfl b).mp hIn).1
  have hUsed := hB.2
  rcases hSound.act_lowered hTables act hOk hWrites b with hNull | ⟨top, _, hSame⟩
  · exact absurd (congrArg Capability.typ hNull) hUsed
  · rw [hSame] at hUsed ⊢
    exact ⟨⟨hVisible, hUsed⟩, rfl⟩

include hTracked

/- The slots that are left are the kept slots of `s`. -/
theorem Tracked.shrink (act : Act) (hOk : act.Ok s) (hWrites : act.writes = false)
    (hKeep : ∀ b, s.Held b → K b → (act.apply s).Held b ∧ (act.apply s).mem b = s.mem b)
    (hGap : ∀ x a y, K x → s.ChildOf x a → ¬ K a → ¬ s.ChildOf a y)
    (hLeft : ∀ b, (act.apply s).Held b → K b) : Tracked (act.apply s) where
  younger := fun x y hHist => hTracked.congr_younger (act_log s hWrites) (act_counter s act) hHist
  chain := by
    intro b p hB hP hHist
    have hHeldB := (hSound.act_held hTables act hOk hWrites hB).1
    have hHeldP := (hSound.act_held hTables act hOk hWrites hP).1
    rw [act_log s hWrites, (hKeep b hHeldB (hLeft b hB)).2, (hKeep p hHeldP (hLeft p hP)).2] at hHist
    exact hTracked.keep hKeep hGap ⟨hHeldB, hLeft b hB⟩ ⟨hHeldP, hLeft p hP⟩ hHist

theorem Tracked.erase (hOk : s.Owns pid a) (hFree : ¬ s.Interior a) :
    Tracked ((Act.erase pid a).apply s) := by
  have hVisible : (s.erase pid a).Visible = s.Visible := visible_congr (by simp) (by simp)
  refine hTracked.shrink hSound hTables (K := (· ≠ a)) _ hOk rfl ?_ (gap_of_not_interior hFree) ?_
  · intro b hB hNe
    have hSame : (s.erase pid a).mem b = s.mem b := by
      unfold CapState.erase
      split
      · rfl
      · exact update_of_ne hNe _ _
    refine ⟨⟨?_, ?_⟩, hSame⟩
    · exact hVisible ▸ hB.1
    · change ((s.erase pid a).mem b).typ ≠ .null
      rw [hSame]
      exact hB.2
  · rintro b hB rfl
    apply hB.2
    simp only [Act.apply, CapState.erase]
    split
    · assumption
    · dsimp only
      rw [update_self]
      rfl

/- A sweep takes out whole subtrees. -/
theorem Tracked.sweep (hOk : (Act.sweep cur a).Ok s) (hKeeps : Keeps s (.sweep cur a)) :
    Tracked ((Act.sweep cur a).apply s) := by
  refine hTracked.shrink hSound hTables (K := fun b => ¬ Emptied s.mem s.Visible a b) _ hOk rfl
    ?_ ?_ ?_
  · intro b hB hStays
    have hSame := (hSound.sweep_mem hOk b).2 hStays
    refine ⟨⟨?_, ?_⟩, hSame⟩
    · exact hB.1
    · rw [hSame]
      exact hB.2
  · intro x d y hX hChild hD hUp
    rw [not_not] at hD
    by_cases hSerial : (s.mem a).serial = 0
    · -- Revoked by object: the guard speaks of `d`.
      refine hKeeps hSerial d ?_ ⟨⟨x, hChild⟩, ⟨y, hUp⟩⟩
      rcases hD with rfl | ⟨_, _, ⟨hNe, _⟩ | hObject⟩
      · rfl
      · exact absurd hSerial hNe
      · exact hObject.2.2
    -- Whatever hangs on `d` is in the subtree as well.
    apply hX
    refine .inr ⟨hChild.1.1, hChild.1.2, .inl ⟨hSerial, .inl ⟨hChild.1.1, hChild.2.2.1, ?_⟩⟩⟩
    rw [← hChild.2.2.2]
    rcases hD with rfl | ⟨_, _, ⟨_, hBelow | hRoot⟩ | ⟨hZero, _⟩⟩
    · exact ReflTransGen.refl
    · exact ReflTransGen.head ⟨d, hBelow.1, hBelow.2.1, rfl, rfl⟩ hBelow.2.2
    · rw [hRoot]
    · exact absurd hZero hSerial
  · intro b hB hIn
    apply hB.2
    rw [(hSound.sweep_mem hOk b).1 hIn]
    rfl

/- The slots of a dead task go out of sight. -/
theorem Tracked.setDead (act : Act) (hOk : act.Ok s) (hWrites : act.writes = false) {t : Tcb}
    (hTasks : (act.apply s).tasks = update s.tasks id t) (hMax : (act.apply s).maxTasks = s.maxTasks)
    (hDead : t.state = .dead) (hMem : (act.apply s).mem = s.mem)
    (hLeaves : ∀ a, s.Owns id a → ∀ b, ¬ s.ChildOf b a) : Tracked (act.apply s) := by
  have hVisible := hTables.visible_setDead (hTables.act act hOk) hTasks hMax hDead
  refine hTracked.shrink hSound hTables (K := fun a => ¬ s.Owns id a) act hOk hWrites ?_ ?_ ?_
  · intro b hB hOut
    refine ⟨⟨(hVisible b).mpr ⟨hB.1, hOut⟩, ?_⟩, congrFun hMem b⟩
    rw [hMem]
    exact hB.2
  · intro x a y _ hChild hIn
    exact absurd hChild (hLeaves a (not_not.mp hIn) x)
  · exact fun b hB => ((hVisible b).mp hB.1).2

theorem Tracked.openSpace (hOk : (Act.openSpace id space).Ok s) :
    Tracked ((Act.openSpace id space).apply s) := by
  have hVisible := hTables.visible_openSpace hOk.1 hOk.2
  refine hTracked.shrink hSound hTables (K := fun _ => True) _ hOk rfl ?_
    (fun x a y _ _ hGone => absurd trivial hGone) (fun _ _ => trivial)
  intro b hB _
  have hSame : (s.openSpace id space).mem b = s.mem b := if_neg fun hIn =>
    hTables.not_visible_space hOk.1 hOk.2 hB.1 hIn.1
  refine ⟨⟨(hVisible b).mpr (.inl hB.1), ?_⟩, hSame⟩
  change ((s.openSpace id space).mem b).typ ≠ .null
  rw [hSame]
  exact hB.2

/- Burying joins up what the dying task held. -/
theorem Tracked.bury {scratch : Scratch} (hOk : (Act.bury id scratch).Ok s) :
    Tracked ((Act.bury id scratch).apply s) := by
  rcases hTables.running_cspace hOk.2 with ⟨space, hSpace, _⟩
  have hTables' := hTables.act (.bury id scratch) hOk
  have hVisible := hTables.visible_setDead hTables'
    (bury_tasks s id scratch) (bury_maxTasks s id scratch) rfl
  have hDying := hSound.dyingOk hTables hOk.1 hOk.2 hSpace
  have hMem := hTables.bury_mem hOk.1 hOk.2 hSpace scratch
  have hSet : ((Act.bury id scratch).apply s).Visible =
        (· ∈ slotAddrs (withoutSpace space (revokeSpaces s))) := by
    funext a
    rw [hVisible, mem_slotAddrs_withoutSpace_iff, eq_iff_iff]
    refine and_congr_right fun hIn => not_congr ?_
    constructor
    · exact fun hOwns => Option.some.inj (hOwns.space.symm.trans hSpace)
    · rintro rfl
      exact ⟨hOk.2, hSpace, ((hTables.visible_iff a).mp hIn).1⟩
  have hOutside : ∀ b, ((Act.bury id scratch).apply s).Held b → b.space ≠ space := by
    intro b hB
    have hIn := hB.1
    rw [hSet, mem_slotAddrs_withoutSpace_iff] at hIn
    exact hIn.2
  refine ⟨fun x y hHist => hTracked.congr_younger (act_log s rfl) (act_counter s _) hHist, ?_⟩
  intro b p hB hP hHist
  rcases hSound.act_held hTables _ hOk rfl hB with ⟨hHeldB, hSerialB⟩
  rcases hSound.act_held hTables _ hOk rfl hP with ⟨hHeldP, hSerialP⟩
  rw [act_log s rfl, hSerialB, hSerialP] at hHist
  have hNamed : (s.mem p).serial ≠ 0 := by
    rcases TransGen.tail'_iff.mp hHist with ⟨k, _, hStep⟩
    exact (hTracked.younger _ _ hStep).1
  have hBelow := below_of_childOf (hTracked.chain b p hHeldB hHeldP hHist)
  apply childOf_of_below hP
  rw [hSerialP, hSet, hMem]
  exact (hDying.below_afterDeath_iff scratch hNamed
    (hDying.not_dyingKey hHeldP.1 (hOutside p hP) hHeldP.2) (hOutside b hB)).mpr hBelow

theorem Tracked.act (act : Act) (hOk : act.Ok s) (hKeeps : Keeps s act) :
    Tracked (act.apply s) := by
  cases act with
  | burn =>
    exact hTracked.shrink hSound hTables (K := fun _ => True) _ hOk rfl (fun b hB _ => ⟨hB, rfl⟩)
      (fun _ _ _ _ _ hGone => absurd trivial hGone) (fun _ _ => trivial)
  | install _ _ _ _ src =>
    rcases hOk with ⟨_, hSerial, hFresh, _, hSource⟩
    cases src with
    | none =>
      exact hTracked.writeFresh rfl (visible_congr rfl rfl)
        (burn_counter s) (hist_cons_none _ _ _) hSerial
        hKeeps.1
    | some =>
    rcases hSource.owner with ⟨q, hOwns⟩
    refine hTracked.writeDerived hSound rfl (visible_congr rfl rfl) (le_refl _) ?_ hSerial
      hFresh (hTables.visible_of_owns hOwns) hSource
      hKeeps.1 ?_
    · exact fun x y hHist => hist_cons_some hHist
    · exact fun hEq => hKeeps.2 (congrArg some hEq)
  | place =>
    exact hTracked.writeFresh rfl (visible_congr rfl rfl)
      (burn_counter s) (hist_cons_none _ _ _) hOk.2.1 hKeeps
  | erase => exact hTracked.erase hSound hTables hOk hKeeps
  | sweep => exact hTracked.sweep hSound hTables hOk hKeeps
  | openSpace => exact hTracked.openSpace hSound hTables hOk
  | age id =>
    refine hTracked.setDead hSound hTables (.age id) hOk rfl rfl rfl rfl rfl ?_
    intro a hOwns
    have hRun := hOwns.running
    simp only [Act.Ok, CapState.freeSlot, decide_eq_true_eq] at hOk
    simp [CapState.running, hOk.2.2] at hRun
  | abandon id => exact hTracked.setDead hSound hTables (.abandon id) hOk rfl rfl rfl rfl rfl hKeeps
  | bury => exact hTracked.bury hSound hTables hOk

end Actions

----
-- Undisturbed Runs
----

namespace CapState

/- Slot `slot` of `pid` may be written over or emptied. -/
def Spare (s : CapState) (pid slot : Nat) : Prop :=
  ∀ a, s.Owns pid a → a.slot = slot → ¬ s.Interior a

/- The capability in slot `slot` of `pid` has no live parent. -/
def Topmost (s : CapState) (pid slot : Nat) : Prop :=
  ∀ a, s.Owns pid a → a.slot = slot → ∀ p, ¬ s.ChildOf a p

end CapState

/-
  The operation does not take out a capability between a live
  parent and a live child. A capability that is replaced by
  its own copy gets a child by that, so it must have no live
  parent.
-/
def Undisturbed (s : Sys) : Op → Prop
  | .installFromRoot pid slot _ _ => s.cap.Spare pid slot
  | .retype cur dest _ _ => s.cap.Spare cur dest
  | .installReplyFor pid _ _ => s.cap.Spare pid capslotReply
  | .consumeReply cur => s.cap.Spare cur capslotReply
  | .mint cur dest src _ | .mintToken cur dest src _ _
  | .transfer cur dest src | .untypedSplit cur src dest _ =>
    s.cap.Spare cur dest ∧ (dest = src → s.cap.Topmost cur src)
  | .grant cur target dest src
  | .grantInto cur target dest src _ =>
    s.cap.Spare target dest ∧ (target = cur → dest = src → s.cap.Topmost cur src)
  | .schedSplit cur _ _ dest _ _ _ _ _ => s.cap.Spare cur dest
  | .pipeClose cur slot => s.cap.Spare cur slot
  | .teardown id _ => ∀ a, s.cap.Owns id a → (s.cap.mem a).typ = .pipe → ¬ s.cap.Interior a
  | .revoke cur slot =>
    ∀ a, s.cap.Owns cur a → a.slot = slot → (s.cap.mem a).serial = 0 →
      ∀ b, (s.cap.mem b).object = (s.cap.mem a).object → ¬ s.cap.Interior b
  | _ => True

/- Emptying slots puts no capability between two others. -/
theorem Closing.interior (hClosing : Closing s s') (hInterior : s'.Interior a) : s.Interior a := by
  have hVisible : s'.Visible = s.Visible := visible_congr hClosing.tasks hClosing.maxTasks
  have hHeld : ∀ b, s'.Held b → s.Held b ∧ s.mem b = s'.mem b := by
    intro b hB
    rcases hClosing.mem b with hSame | hNull
    · refine ⟨⟨?_, ?_⟩, hSame.symm⟩
      · rw [← hVisible]
        exact hB.1
      · rw [← hSame]
        exact hB.2
    · refine absurd ?_ hB.2
      rw [hNull]
      rfl
  have hChild : ∀ b p, s'.ChildOf b p → s.ChildOf b p := by
    intro b p hUp
    exact hUp.mono (hHeld b hUp.1) (hHeld p hUp.2.1)
  rcases hInterior with ⟨⟨b, hB⟩, ⟨p, hP⟩⟩
  exact ⟨⟨b, hChild b a hB⟩, ⟨p, hChild a p hP⟩⟩

/- Nothing was made from what a new task has been given. -/
theorem Hatching.leaves (hSound : Sound s) (hHatch : Hatching s space s')
    (hSpace : (s'.tasks id).cspace = some space) (a : Addr)
    (hOwns : s'.Owns id a) (b : Addr) : ¬ s'.ChildOf b a := by
  intro hChild
  have hIn : a.space = space := Option.some.inj (hOwns.space.symm.trans hSpace)
  have hOld : ∃ p, (s'.mem b).badge = (s.mem p).serial ∨ (s'.mem b).badge < (s.mem p).serial := by
    by_cases hB : b.space = space
    · rcases hHatch.badge b hB (by
            have hSlot := hChild.1.1
            rw [CapState.Visible, mem_slotAddrs_iff] at hSlot
            omega) hChild.1.2 with hZero | ⟨p, hP⟩
      · exact absurd hZero hChild.2.2.1.2.2
      · exact ⟨p, .inl hP⟩
    · rw [hHatch.outside b hB]
      refine ⟨b, .inr (hSound.older b ?_)⟩
      rw [← hHatch.outside b hB]
      exact hChild.2.2.1.2.2
  rcases hOld with ⟨p, hOld⟩
  have hBound := hSound.bound p
  have hLink := hChild.2.2.2
  have hNe := hChild.2.2.1.2.2
  rcases hHatch.serial a hIn hOwns.slot hChild.2.1.2 with hZero | hNew <;> omega

theorem permits_keeps {s : Sys} (hTables : Tables s.cap)
    (hSound : Sound s.cap) (op : Op) (hUndisturbed : Undisturbed s op) :
    Permits Keeps s.cap op := by
  -- A derivation into `a`, possibly from `a` itself.
  have hDerive : ∀ pid cur dest src, s.cap.Spare pid dest →
        (pid = cur → dest = src → s.cap.Topmost cur src) →
      ∀ a b c origin, s.cap.Owns pid a → a.slot = dest → s.cap.Owns cur b → b.slot = src →
        Keeps s.cap (.install pid a c origin (some b)) := by
    intro pid cur dest src hSpare hTop a b c origin hA hDest hB hSrc
    refine ⟨hSpare a hA hDest, ?_⟩
    intro hSame
    cases hSame
    have hPid := hTables.own pid cur _ hA.space hB.space
    exact hTop hPid (hDest.symm.trans hSrc) a hB hSrc
  cases op with
  | createTask => exact fun _ => trivial
  | spawnAborted | fork =>
    exact ⟨fun _ => trivial,
      fun space s' hHatch hSpace => hHatch.leaves hSound hSpace⟩
  | teardown id =>
    refine ⟨?_, fun _ _ => trivial⟩
    intro s' a hClosing hOwns hPipe hInterior
    have hOld := hClosing.interior hInterior
    rcases hClosing.mem a with hSame | hNull
    · exact hUndisturbed a ((CapState.owns_congr hClosing.tasks hClosing.maxTasks id a).mp hOwns)
        (hSame ▸ hPipe) hOld
    · rw [hNull] at hPipe
      simp [Capability.nullify] at hPipe
  | installFromRoot => exact fun a c hOwns hSlot => hUndisturbed a hOwns hSlot
  | retype | installReplyFor =>
    intro a c hOwns hSlot
    refine ⟨hUndisturbed a hOwns hSlot, ?_⟩
    intro hSame
    cases hSame
  | consumeReply | pipeClose => exact fun a hOwns hSlot => hUndisturbed a hOwns hSlot
  | mint cur dest src | mintToken cur dest src | transfer cur dest src
  | untypedSplit cur src dest =>
    intro a b c origin hA hDest hB hOwns
    exact hDerive cur cur dest src hUndisturbed.1
      (fun _ => hUndisturbed.2) a b c origin hA hDest hOwns
      (by rw [hB])
  | grant cur target dest src | grantInto cur target dest src =>
    intro a b c hA hDest hB hSrc
    exact hDerive target cur dest src hUndisturbed.1 hUndisturbed.2 a b c _ hA hDest hB hSrc
  | schedSplit =>
    intro a b c origin hOwns hSlot hNe
    refine ⟨hUndisturbed a hOwns hSlot, ?_⟩
    intro hSame
    exact absurd (Option.some.inj hSame) hNe
  | pipe =>
    rintro s' a hBadge _ ⟨_, ⟨p, hChild⟩⟩
    exact hChild.2.2.1.2.2 hBadge
  | revoke => exact fun a hOwns hSlot _ => hUndisturbed a hOwns hSlot
  | childTcb => trivial
  | replyMint => trivial
  | childPipeEnd | kobj => trivial

theorem tracked_bootCap (cfg : BootConfig) : Tracked (bootCap cfg) := by
  have hSources : (bootCap cfg).log.map Derivation.source = [none, none, none, none] := rfl
  have hNone : ∀ d ∈ (bootCap cfg).log, d.source = none := by
    intro d hMem
    have hIn := List.mem_map_of_mem (f := Derivation.source) hMem
    rw [hSources] at hIn
    simpa using hIn
  have hHist : ∀ x y, ¬ Hist (bootCap cfg).log x y := by
    rintro x y ⟨d, hMem, _, hSource⟩
    rw [hNone d hMem] at hSource
    cases hSource
  refine ⟨?_, ?_⟩
  · exact fun x y hIs => absurd hIs (hHist x y)
  · intro b p _ _ hReach
    rcases TransGen.head'_iff.mp hReach with ⟨k, hStep, _⟩
    exact absurd hStep (hHist _ k)

theorem RunsWhile.tracked {cfg : BootConfig} {s : Sys} (hRun : RunsWhile Undisturbed (boot cfg) s) :
    Tables s.cap ∧ Sound s.cap ∧ Tracked s.cap := by
  have hAll := RunsWhile.invariant (fun c => Sound c ∧ Tracked c) benign_keeps
    (fun t op hT hI hC => permits_keeps hT hI.1 op hC)
    (fun c act hT hI hOk hKeeps => ⟨hI.1.act hT act hOk, hI.2.act hI.1 hT act hOk hKeeps⟩)
    hRun (tables_bootCap cfg) (regionsFit_boot cfg)
    ⟨sound_bootCap cfg, tracked_bootCap cfg⟩
  exact ⟨hAll.1, hAll.2.2⟩

/- What a sweep leaves was not made from the revoked one. -/
theorem Tracked.sweep_complete (hTracked : Tracked s)
    (hSound : Sound s) (hTables : Tables s) (hOk : (Act.sweep cur a).Ok s)
    (hHeld : ((Act.sweep cur a).apply s).Held b) : ¬ TransGen (Hist s.log)
      (((Act.sweep cur a).apply s).mem b).serial
      (s.mem a).serial := by
  intro hHist
  have hStays : ¬ Emptied s.mem s.Visible a b := by
    intro hIn
    apply hHeld.2
    rw [(hSound.sweep_mem hOk b).1 hIn]
    rfl
  have hSame := (hSound.sweep_mem hOk b).2 hStays
  have hB : s.Held b := by
    unfold CapState.Held at hHeld
    rw [hSame] at hHeld
    exact hHeld
  have hA : s.Held a := ⟨hTables.visible_of_owns hOk.1, hOk.2.1⟩
  rw [hSame] at hHist
  have hNamed : (s.mem a).serial ≠ 0 := by
    rcases TransGen.tail'_iff.mp hHist with ⟨k, _, hStep⟩
    exact (hTracked.younger _ _ hStep).1
  have hBelow := below_of_childOf (hTracked.chain b a hB hA hHist)
  exact hStays (.inr ⟨hB.1, hB.2, .inl ⟨hNamed, .inl hBelow⟩⟩)

theorem spare_of_null {slot : Nat} (space : Nat) (hSpace : (s.tasks pid).cspace = some space)
    (hNull : (s.mem ⟨space, slot⟩).typ = .null) : s.Spare pid slot := by
  intro a hOwns hSlot
  apply not_interior_of_null
  cases hSlot
  cases Option.some.inj (hSpace.symm.trans hOwns.space)
  exact hNull

/-
  Task 1 mints a copy of its endpoint and a copy of the copy,
  and closes the first copy.
-/
def closeMiddle : List Op :=
  [.createTask 1 .kernel, .installFromRoot 1 30 13 4,
    .mint 1 31 30 Right.all, .mint 1 32 31 Right.all,
    .pipeClose 1 31]

end Horus

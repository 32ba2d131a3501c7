import Horus.Kernel.DecomposeTasks

/-
  The invariant rule for the capability system.

  An operation is a run of actions, so a property of the
  capability state that every action keeps holds in every
  state of every run. A guard on actions stands for a
  condition on runs; `Permits` says what an operation needs
  of it.
-/

namespace Horus

open Function

variable {G : CapState → Act → Prop} {s s' : Sys} {C : Sys → Op → Prop}

----
-- Operations Under a Guard
----

/- Actions of an operation other than filling empty slots. -/
def Permits (G : CapState → Act → Prop) (s : CapState) : Op → Prop
  | .createTask id _ => ∀ space, G s (.openSpace id space)
  | .spawnAborted id _ | .fork _ id _ =>
    (∀ space, G s (.openSpace id space)) ∧
    ∀ space s', Hatching s space s' → (s'.tasks id).cspace = some space → G s' (.abandon id)
  | .teardown id scratch =>
    (∀ s' a, Closing s s' → s'.Owns id a → (s'.mem a).typ = .pipe → G s' (.erase id a)) ∧
    ∀ s', Closing s s' → G s' (.bury id scratch)
  | .installFromRoot pid slot _ _ =>
    ∀ a c, s.Owns pid a → a.slot = slot → G s (.place a c .fromRoot)
  | .retype cur dest _ _ =>
    ∀ a c, s.Owns cur a → a.slot = dest → G s (.install cur a c .retype none)
  | .installReplyFor pid _ _ =>
    ∀ a c, s.Owns pid a → a.slot = capslotReply → G s (.install pid a c .recvReply none)
  | .consumeReply cur => ∀ a, s.Owns cur a → a.slot = capslotReply → G s (.erase cur a)
  | .mint cur dest src _ | .mintToken cur dest src _ _
  | .transfer cur dest src | .untypedSplit cur src dest _ =>
    ∀ a b c origin, s.Owns cur a → a.slot = dest → b = ⟨a.space, src⟩ → s.Owns cur b →
      G s (.install cur a c origin (some b))
  | .grant cur target dest src | .grantInto cur target dest src _ =>
    ∀ a b c, s.Owns target a → a.slot = dest → s.Owns cur b → b.slot = src →
      G s (.install target a c .grant (some b))
  | .schedSplit cur _ _ dest _ _ _ _ _ =>
    ∀ a b c origin, s.Owns cur a → a.slot = dest → b ≠ a → G s (.install cur a c origin (some b))
  | .pipe cur => ∀ s' a, (s'.mem a).badge = 0 → s'.uncounted a = false → G s' (.erase cur a)
  | .pipeClose cur slot => ∀ a, s.Owns cur a → a.slot = slot → G s (.erase cur a)
  | .revoke cur slot =>
    ∀ a, s.Owns cur a → a.slot = slot → (s.mem a).typ ≠ .null → G s (.sweep cur a)
  | .childTcb _ _ | .replyMint _ _ _ _ _ _ _
  | .childPipeEnd _ _ _ _ _ | .kobj _ _ => True

theorem permits_true (s : CapState) (op : Op) : Permits (fun _ _ => True) s op := by
  cases op <;> simp [Permits]

theorem benign_true : Benign (fun _ _ => True) := by
  constructor <;> intros <;> trivial

/- No region of untyped memory wraps around. -/
def RegionsFit (o : ObjState) : Prop := ∀ i, (o.untypeds i).base + (o.untypeds i).size < 2 ^ 64

theorem exec_run (hBenign : Benign G) (hTables : Tables s.cap) (op : Op)
    (hFit : ∀ cur src dest bytes, op = .untypedSplit cur src dest bytes → RegionsFit s.obj)
    (hEnabled : enabled s.cap op = true) (hPermits : Permits G s.cap op) :
    ActRun G s.cap (exec s op).2.cap := by
  cases op with
  | createTask => exact hTables.createTask_run hBenign hEnabled hPermits
  | spawnAborted => exact hTables.spawnAborted_run hBenign hEnabled hPermits.1 hPermits.2
  | fork =>
    simp only [enabled, Bool.and_eq_true] at hEnabled
    exact hTables.hFork_run hBenign hEnabled.1 hEnabled.2 hPermits.1 hPermits.2
  | teardown =>
    simp only [enabled, decide_eq_true_eq] at hEnabled
    exact hTables.taskTeardown_run hEnabled.1 hPermits.1 hPermits.2
  | installFromRoot => exact hTables.capInstallFromRoot_run hBenign hEnabled hPermits
  | retype =>
    simp only [enabled, Bool.and_eq_true] at hEnabled
    refine hTables.capInstallObject_run hBenign hEnabled.1 ?_ rfl hPermits
    have hKind := hEnabled.2
    simp only [retypeKind, decide_eq_true_eq] at hKind
    rcases hKind with rfl | rfl | rfl <;> rfl
  | childTcb => exact hTables.capInstallObjectFirstFree_run hBenign hEnabled rfl rfl
  | installReplyFor => exact hTables.capInstallReplyFor_run hBenign hEnabled hPermits
  | consumeReply => exact hTables.capConsumeSlot_run hEnabled hPermits
  | mint | transfer =>
    exact hTables.mintThrough_copy_run hEnabled (fun _ _ hObject hToken => ⟨hObject, hToken⟩)
      (fun a b c => hPermits a b c _)
  | mintToken => exact hTables.capMintToken_run hEnabled (fun a b c => hPermits a b c _)
  | grant =>
    unfold exec hCapGrant Sys.liftCap
    dsimp only
    split
    · exact actRun_refl
    rename_i hTarget
    split
    · exact actRun_refl
    push Not at hTarget
    refine hTables.capGrantCommon_run hEnabled ?_ hPermits
    simp [CapState.running, hTarget.2.1, hTarget.2.2.2]
  | grantInto =>
    simp only [enabled, Bool.and_eq_true] at hEnabled
    exact hTables.capGrantCommon_run hEnabled.1 hEnabled.2 hPermits
  | replyMint => exact hTables.capReplyMintInto_run hBenign hEnabled
  | childPipeEnd =>
    simp only [enabled, Bool.and_eq_true] at hEnabled
    exact hTables.capInstallChildPipeEnd_run hBenign hEnabled.1 hEnabled.2
  | pipe => exact hTables.hPipe_run hBenign hEnabled hPermits
  | pipeClose => exact hTables.hPipeClose_run hEnabled hPermits
  | untypedSplit => exact hTables.untypedSplit_run hBenign hEnabled (hFit _ _ _ _ rfl) hPermits
  | schedSplit => exact hTables.schedSplit_run hBenign hEnabled hPermits
  | revoke => exact hTables.capRevoke_run hEnabled hPermits
  | kobj => exact actRun_refl

/- Every operation keeps the task table in order. -/
theorem Tables.step (hTables : Tables s.cap) (op : Op)
    (hFit : ∀ cur src dest bytes, op = .untypedSplit cur src dest bytes → RegionsFit s.obj)
    (hEnabled : enabled s.cap op = true) : Tables (exec s op).2.cap :=
  Lib.Run.invariant Tables (fun _ act hT hOk => hT.act act hOk.1)
    (exec_run benign_true hTables op hFit hEnabled (permits_true _ op))
    hTables

----
-- Regions
----

theorem pipeCloseTaskEnds_untypeds (id space size passes : Nat) (s : Sys) :
    (pipeCloseTaskEnds id space size passes s).obj.untypeds =
      s.obj.untypeds := by
  induction passes generalizing s with
  | zero => rfl
  | succ _ ih =>
  unfold pipeCloseTaskEnds
  split
  · rfl
  · rw [ih]

/- Only a split and the allocator touch the regions. -/
theorem exec_untypeds (s : Sys) (op : Op)
    (hSplit : ∀ cur src dest bytes, op ≠ .untypedSplit cur src dest bytes)
    (hKobj : ∀ watermarks scs, op ≠ .kobj watermarks scs) :
    (exec s op).2.obj.untypeds = s.obj.untypeds := by
  cases op with
  | fork =>
    simp only [exec, hFork, capCloneCspace]
    repeat' split
    all_goals rfl
  | teardown =>
    simp only [exec, taskTeardown]
    split
    · rfl
    dsimp only
    split
    · rfl
    · split
      · rfl
      · rw [pipeCloseTaskEnds_untypeds]
  | childPipeEnd =>
    simp only [exec, capInstallChildPipeEnd]
    repeat' split
    all_goals rfl
  | pipe =>
    simp only [exec, hPipe]
    repeat' split
    all_goals rfl
  | pipeClose =>
    simp only [exec, hPipeClose]
    repeat' split
    all_goals rfl
  | untypedSplit cur src dest bytes => exact absurd rfl (hSplit cur src dest bytes)
  | schedSplit =>
    simp only [exec, schedSplit]
    repeat' split
    all_goals rfl
  | revoke =>
    simp only [exec, capRevoke]
    repeat' split
    all_goals rfl
  | kobj => exact absurd rfl (hKobj _ _)
  | _ => rfl

theorem RegionsFit.untypedSplit (hFit : RegionsFit s.obj) (cur src dest bytes : Nat) :
    RegionsFit (untypedSplit s cur src dest bytes).2.obj := by
  unfold Horus.untypedSplit
  split
  · exact hFit
  split
  · exact hFit
  rename_i parent _
  split
  · exact hFit
  rename_i child region rest hCarve
  have hWithin := untypedCarve_within (hFit parent) hCarve
  have hRest : rest.base = (s.obj.untypeds parent).base ∧
        rest.size = (s.obj.untypeds parent).size := by
    unfold untypedCarve at hCarve
    dsimp only at hCarve
    split_ifs at hCarve
    split at hCarve
    · simp at hCarve
    · rcases hCarve with ⟨_, _, rfl⟩
      exact ⟨rfl, rfl⟩
  intro i
  dsimp only
  have hParent := hFit parent
  rcases eq_or_ne i child with rfl | hChild
  · rw [update_self]
    unfold Untyped.Within at hWithin
    split
    · omega
    · simp
  · rw [update_of_ne hChild]
    rcases eq_or_ne i parent with rfl | hEq
    · rw [update_self, hRest.1, hRest.2]
      exact hParent
    · rw [update_of_ne hEq]
      exact hFit i

theorem RegionsFit.exec (hFit : RegionsFit s.obj) (op : Op) : RegionsFit (exec s op).2.obj := by
  by_cases hSplit : ∃ cur src dest bytes, op = .untypedSplit cur src dest bytes
  · rcases hSplit with ⟨cur, src, dest, bytes, rfl⟩
    exact hFit.untypedSplit cur src dest bytes
  by_cases hKobj : ∃ watermarks scs, op = .kobj watermarks scs
  · rcases hKobj with ⟨watermarks, scs, rfl⟩
    exact hFit
  intro i
  rw [exec_untypeds s op (fun cur src dest bytes hEq =>
      hSplit ⟨cur, src, dest, bytes, hEq⟩)
    (fun watermarks scs hEq => hKobj ⟨watermarks, scs, hEq⟩)]
  exact hFit i

/-
  An invariant that each action keeps under the guard holds
  along runs whose condition permits the guard.
-/
theorem RunsWhile.invariant (I : CapState → Prop) (hBenign : Benign G)
    (hPermits : ∀ s op, Tables s.cap → I s.cap → C s op → Permits G s.cap op)
    (hAct : ∀ (s : CapState) (act : Act), Tables s → I s →
      act.Ok s → G s act → I (act.apply s)) (hRun : RunsWhile C s s') (hTables : Tables s.cap)
    (hFit : RegionsFit s.obj) (hInit : I s.cap) : Tables s'.cap ∧ RegionsFit s'.obj ∧ I s'.cap := by
  refine Lib.Run.invariant (fun t => Tables t.cap ∧ RegionsFit t.obj ∧ I t.cap)
    ?_ hRun ⟨hTables, hFit, hInit⟩
  rintro t op ⟨hT, hF, hI⟩ ⟨hEnabled, hC⟩
  have hActs := exec_run hBenign hT op (fun _ _ _ _ _ => hF) hEnabled (hPermits t op hT hI hC)
  have hBoth := Lib.Run.invariant (fun c => Tables c ∧ I c) (fun c act hc hOk =>
      ⟨hc.1.act act hOk.1, hAct c act hc.1 hc.2 hOk.1 hOk.2⟩)
    hActs ⟨hT, hI⟩
  exact ⟨hBoth.1, hF.exec op, hBoth.2⟩

/- The same for runs without a condition. -/
theorem RunsWhile.invariant_always (I : CapState → Prop)
    (hAct : ∀ (s : CapState) (act : Act), Tables s → I s →
      act.Ok s → I (act.apply s)) (hRun : RunsWhile C s s') (hTables : Tables s.cap)
    (hFit : RegionsFit s.obj) (hInit : I s.cap) : Tables s'.cap ∧ RegionsFit s'.obj ∧ I s'.cap :=
  RunsWhile.invariant I benign_true (fun s op _ _ _ => permits_true s.cap op)
    (fun s act hT hI hOk _ => hAct s act hT hI hOk) hRun
    hTables hFit hInit

/- Task 0 is given its birth capabilities like any other. -/
theorem boot_invariant (I : CapState → Prop) (cfg : BootConfig)
    (hAct : ∀ (s : CapState) (act : Act), Tables s → I s → act.Ok s → I (act.apply s))
    (hStart : I ((preBoot cfg).openSpace 0 1)) :
    I (((preBoot cfg).openSpace 0 1).placeBirth 0 1) := by
  have hTables : Tables ((preBoot cfg).openSpace 0 1) := (tables_bootCap cfg).congr rfl rfl rfl
  have hRun : ((preBoot cfg).openSpace 0 1).running 0 = true :=
    decide_eq_true ⟨cfg.someTask, fun hDead => by cases hDead⟩
  have hBirth := placeBirth_run benign_true hRun (openSpace_cspace _ 0 1) (openSpace_null _ 0 1)
  exact (Lib.Run.invariant (fun c => Tables c ∧ I c) (fun c act hc hOk =>
    ⟨hc.1.act act hOk.1, hAct c act hc.1 hc.2 hOk.1⟩) hBirth ⟨hTables, hStart⟩).2

theorem regionsFit_boot (cfg : BootConfig) : RegionsFit (boot cfg).obj := cfg.regionsFit

end Horus

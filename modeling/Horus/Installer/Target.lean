import Horus.Installer.Confirmed

/-
  The installer formats the disk that was highlighted, on a
  machine whose disks all answer, are all of one size and have
  no volume that the kernel did not mount.

  The target is a position in the menu, and a disk that does
  not answer has none. The sizes come from the kernel's survey
  of the machine, which is about one disk, whatever is chosen.
  A disk counts as occupied when the kernel mounted it.

  Main declarations:
    * `TargetRight`, `Machine.Regular`
    * `Picked`, `TargetSound`
    * `format_chosen_disk`
    * `format_other_disk`
-/

namespace Horus.Installer

open Wizard

variable {s t : Wizard} {w : Widget} {q : Ask} {c : Caller} {n sel : Nat}

/-
  The call names the disk that was highlighted, the review and
  the bounds on the sizes are about this disk, and the word was
  the one for what is on it.
-/
structure TargetRight (m : Machine) (s : Wizard) (call : Install) : Prop where
  chosen : ∃ label, s.chosen = some label ∧ label.device = call.device
  drawn : ∃ r, s.drawn = some r ∧ r.diskBlocks = (m.disks call.device).blocks
  bounds : diskMib m = mibOf (m.disks call.device).blocks
  word : call.word = if (m.disks call.device).hasVolume then replaceWord
    else confirmWord

structure Machine.Regular (m : Machine) : Prop where
  some : 0 < m.count
  answers : ∀ n, m.queryFails n = false
  size : ∀ d < m.count, d < targetMax → (m.disks d).blocks = (m.disks m.current).blocks
  known : ∀ d < m.count, d < targetMax → (m.disks d).hasVolume = (m.mounted == .some d)

----
-- The Invariant
----

variable {m : Machine}

/- The disk was taken from the menu. -/
structure Picked (m : Machine) (s : Wizard) : Prop where
  chosen : ∃ label, s.chosen = some label ∧ label.device = s.target
  inside : s.target < m.count ∧ s.target < targetMax
  occupied : s.occupied = (m.disks s.target).hasVolume

/- The review was drawn, from the survey. -/
def Drawn (m : Machine) (s : Wizard) : Prop :=
  ∃ r, s.drawn = some r ∧ r.diskBlocks = (storageQuery m).totalBlocks

structure TargetSound (m : Machine) (s : Wizard) : Prop where
  listed : ∀ i label, s.targets[i]? = some label → label.device = i ∧ i < m.count ∧ i < targetMax
  picked : ∀ q c w, s.screen = .asking q c w → q ≠ .survey → q ≠ .target → Picked m s
  drawn : ∀ q c w, s.screen = .asking q c w → q = .review ∨ q = .word → Drawn m s
  present : ∀ q c w, s.screen = .asking q c w → m.present = true
  calls : ∀ call ∈ s.calls, TargetRight m s call
  once : ∀ q c w, s.screen = .asking q c w → s.calls = []
  left : s.screen = .left → s.calls = []

abbrev Choice := Nat × Bool × Option Label × List Label × List Install

def Wizard.choice (s : Wizard) : Choice := (s.target, s.occupied, s.chosen, s.targets, s.calls)

/- A step that does not touch the choice of the disk. -/
structure Kept (m : Machine) (t : Wizard) (choice : Choice) : Prop where
  same : t.choice = choice
  drawn : ∀ q c w, t.screen = .asking q c w → q = .review ∨ q = .word → Drawn m t

theorem kept_ask (hOther : ¬ (q = .review ∨ q = .word)) : Kept m (s.ask q c w) s.choice := by
  refine ⟨rfl, ?_⟩
  rintro _ _ _ ⟨⟩ hWhich
  exact absurd hWhich hOther

theorem kept_leave : Kept m s.leaveUntouched s.choice := ⟨rfl, by rintro _ _ _ ⟨⟩⟩

theorem kept_drawReview : Kept m (s.drawReview m) s.choice := by
  refine ⟨rfl, ?_⟩
  rintro _ _ _ ⟨⟩ _
  exact ⟨_, rfl, rfl⟩

theorem kept_askSizes (c : Caller) : Kept m (s.askSizes m c) s.choice := by
  unfold askSizes
  split
  · exact kept_ask (by simp)
  · exact kept_ask (by simp)

theorem kept_goBack (q : Ask) (c : Caller) : Kept m (s.goBack m q c) s.choice := by
  unfold goBack
  split
  · exact kept_ask (by simp)
  · exact kept_ask (by simp)
  · exact kept_askSizes _
  · exact kept_ask (by simp)
  · exact kept_ask (by simp)
  · exact kept_ask (by simp)
  · exact kept_ask (by simp)
  · exact kept_drawReview

theorem kept_goOn (q : Ask) (c : Caller) : Kept m (s.goOn m q c) s.choice := by
  unfold goOn
  split
  · exact kept_ask (by simp)
  · exact kept_ask (by simp)
  · exact kept_ask (by simp)
  · exact kept_ask (by simp)
  · split
    · exact kept_ask (by simp)
    · exact kept_drawReview
  · exact kept_drawReview

----
-- Answers
----

theorem kept_swapEntered (c : Caller) (t : Text) : Kept m (s.swapEntered m c t) s.choice := by
  unfold swapEntered
  split
  · exact kept_ask (by simp)
  split
  · exact kept_ask (by simp)
  split
  · exact kept_ask (by simp)
  · exact kept_ask (by simp)

theorem kept_volumeEntered (c : Caller) (t : Text) : Kept m (s.volumeEntered m c t) s.choice := by
  unfold volumeEntered
  split
  · exact kept_goOn .volumeSize c
  split
  · exact kept_ask (by simp)
  dsimp only
  split
  · exact kept_ask (by simp)
  · exact kept_goOn .volumeSize c

theorem kept_rootEntered (c : Caller) : Kept m (s.rootEntered m c) s.choice := by
  unfold rootEntered
  split
  · exact kept_ask (by simp)
  split
  · exact kept_ask (by simp)
  · exact kept_goOn .rootPassword c

theorem kept_userEntered (c : Caller) : Kept m (s.userEntered m c) s.choice := by
  unfold userEntered
  iterate 3
    split
    · exact kept_ask (by simp)
  exact kept_goOn .userPassword c

/- A question that is not about the disk and not the word. -/
theorem kept_entered (hWord : q ≠ .word) (hInput : menuItems s q = none) (c : Caller) (t : Text) :
    Kept m (s.entered m q c t) s.choice := by
  cases q with
  | swapSize => exact kept_swapEntered c t
  | volumeSize => exact kept_volumeEntered c t
  | rootPassword | userPassword => exact kept_ask (by simp)
  | rootAgain => exact kept_rootEntered c
  | userName =>
    simp only [entered]
    split
    · exact kept_goOn .userName c
    · exact kept_ask (by simp)
  | userAgain => exact kept_userEntered c
  | word => exact absurd rfl hWord
  | _ => cases hInput

theorem kept_leftInput (hInput : menuItems s q = none) (c : Caller) :
    Kept m (s.leftInput m q c) s.choice := by
  cases q with
  | swapSize => exact kept_goBack .swapSize c
  | volumeSize =>
    simp only [leftInput, volumeLeft]
    split
    · exact kept_ask (by simp)
    · exact kept_goBack .volumeSize c
  | rootPassword | rootAgain => exact kept_goBack .rootPassword c
  | userName => exact kept_goBack .userName c
  | userPassword | userAgain => exact kept_goBack .userPassword c
  | word => exact kept_leave
  | _ => cases hInput

theorem kept_leftMenu (hMenu : menuItems s q = some n) (c : Caller) :
    Kept m (s.leftMenu m q c) s.choice := by
  cases q with
  | survey | target => exact kept_leave
  | encryption => exact kept_goBack .encryption c
  | review => exact kept_leave
  | change => exact kept_drawReview
  | _ => cases hMenu

theorem kept_correct (sel : Nat) : Kept m (s.correct m sel) s.choice := by
  unfold correct
  split
  · exact kept_ask (by simp)
  · exact kept_ask (by simp)
  · exact kept_ask (by simp)
  · exact kept_askSizes _
  · exact kept_ask (by simp)
  · exact kept_drawReview

----
-- Steps
----

/- The parts of the invariant that no question changes. -/
structure TargetBase (m : Machine) (s : Wizard) : Prop where
  listed : ∀ i label, s.targets[i]? = some label → label.device = i ∧ i < m.count ∧ i < targetMax
  present : m.present = true
  calls : s.calls = []

theorem TargetBase.ask (hBase : TargetBase m s) (hPicked : q ≠ .survey → q ≠ .target → Picked m s)
    (hDrawn : q = .review ∨ q = .word → Drawn m s) : TargetSound m (s.ask q c w) := by
  have hCalls : (s.ask q c w).calls = [] := hBase.calls
  refine ⟨hBase.listed, ?_, ?_, fun _ _ _ _ => hBase.present,
    ?_, fun _ _ _ _ => hCalls, fun _ => hCalls⟩
  · rintro _ _ _ ⟨⟩ hSurvey hTarget
    exact { hPicked hSurvey hTarget with }
  · rintro _ _ _ ⟨⟩ hWhich
    exact hDrawn hWhich
  · rw [hCalls]
    nofun

theorem TargetBase.leave (hBase : TargetBase m s) : TargetSound m s.leaveUntouched := by
  have hCalls : s.leaveUntouched.calls = [] := hBase.calls
  refine ⟨hBase.listed, nofun, nofun, nofun, ?_, nofun, fun _ => hCalls⟩
  rw [hCalls]
  nofun

/- A disk of the list is taken. -/
theorem TargetBase.takeTarget (hRegular : m.Regular)
    (hBase : TargetBase m s) (hSel : sel < s.targets.length) :
    TargetSound m (s.takeTarget m sel) := by
  have hSome : s.targets[sel]? = some s.targets[sel] := List.getElem?_eq_getElem hSel
  rcases hBase.listed _ _ hSome with ⟨hDevice, hCount, hMax⟩
  have hAnswer : ¬(m.queryFails s.queries = true ∨ m.count ≤ sel) := by
    rw [hRegular.answers]
    simp only [Bool.false_eq_true, false_or]
    omega
  have hPicked : Picked m ({ s with
      target := sel
      chosen := s.targets[sel]? }.targetNoteOccupied m) := by
    refine ⟨⟨_, hSome, hDevice⟩, ⟨hCount, hMax⟩, ?_⟩
    simp only [targetNoteOccupied, storageDeviceQuery, if_neg hAnswer]
    exact (hRegular.known sel hCount hMax).symm
  unfold Wizard.takeTarget Wizard.askSizes
  split
  · exact TargetBase.ask { hBase with } (fun _ _ => { hPicked with }) (by simp)
  · exact TargetBase.ask { hBase with } (fun _ _ => { hPicked with }) (by simp)

/- On a regular machine no disk is skipped. -/
theorem buildTargetList_targets (hRegular : m.Regular) : (s.buildTargetList m).targets =
      (List.range (min m.count targetMax)).map fun d =>
        { device := d, mib := mibOf (m.disks d).blocks, hasVolume := m.mounted == some d } := by
  rw [← List.filterMap_eq_map]
  refine List.filterMap_congr ?_
  intro d hMem
  have hIn : d < min m.count targetMax := List.mem_range.mp hMem
  have hAnswer : ¬(m.queryFails (s.queries + d) = true ∨ m.count ≤ d) := by
    rw [hRegular.answers]
    simp only [Bool.false_eq_true, false_or]
    omega
  simp only [targetLabel, storageDeviceQuery, if_neg hAnswer]
  rfl

theorem TargetBase.screenTarget (hRegular : m.Regular)
    (hBase : TargetBase m s) : TargetSound m (s.screenTarget m) := by
  have hTargets := buildTargetList_targets (s := s) hRegular
  have hBase' : TargetBase m (s.buildTargetList m) := by
    refine ⟨?_, hBase.present, hBase.calls⟩
    intro i label hLabel
    rw [hTargets, List.getElem?_map, Option.map_eq_some_iff] at hLabel
    rcases hLabel with ⟨d, hRange, rfl⟩
    rcases List.getElem?_eq_some_iff.mp hRange with ⟨hLt, hEq⟩
    rw [List.getElem_range] at hEq
    rw [List.length_range] at hLt
    subst hEq
    exact ⟨rfl, by omega, by omega⟩
  unfold Wizard.screenTarget
  dsimp only
  split
  · refine hBase'.takeTarget hRegular ?_
    rw [hTargets, List.length_map, List.length_range]
    have hSome := hRegular.some
    unfold targetMax
    omega
  · exact hBase'.ask (by simp) (by simp)

section Asking

variable (hSound : TargetSound m s) (hScreen : s.screen = .asking q c w)

include hSound hScreen

theorem TargetSound.base : TargetBase m s :=
  ⟨hSound.listed, hSound.present q c w hScreen, hSound.once q c w hScreen⟩

/- A step with `Kept` from a question after the disk. -/
theorem TargetSound.kept (hPicked : t.screen = .left ∨ Picked m s) (hKept : Kept m t s.choice) :
    TargetSound m t := by
  have hSame := hKept.same
  simp only [choice, Prod.mk.injEq] at hSame
  rcases hSame with ⟨hTarget, hOccupied, hChosen, hTargets, hCalls⟩
  rw [hSound.once q c w hScreen] at hCalls
  refine ⟨?_, ?_, hKept.drawn, fun _ _ _ _ => hSound.present q c w hScreen, ?_,
    fun _ _ _ _ => hCalls, fun _ => hCalls⟩
  · rw [hTargets]
    exact hSound.listed
  · intro q' c' w' hNew _ _
    rcases hPicked with hLeft | hPicked
    · rw [hLeft] at hNew
      cases hNew
    refine ⟨?_, ?_, ?_⟩
    · rw [hChosen, hTarget]
      exact hPicked.chosen
    · rw [hTarget]
      exact hPicked.inside
    · rw [hOccupied, hTarget]
      exact hPicked.occupied
  · rw [hCalls]
    nofun

theorem TargetSound.chose (hRegular : m.Regular) (hMenu : menuItems s q = some n) :
    TargetSound m (s.chose m q c sel) := by
  have hBase := hSound.base hScreen
  have hPicked := hSound.picked q c w hScreen
  cases q with
  | survey =>
    simp only [chose]
    split
    · exact hBase.screenTarget hRegular
    · exact hBase.leave
  | target =>
    simp only [chose]
    split
    · exact hBase.leave
    · exact hBase.takeTarget hRegular (by omega)
  | encryption =>
    exact hSound.kept hScreen (.inr (hPicked (by simp) (by simp))) (kept_goOn .encryption c)
  | review =>
    simp only [chose]
    split
    · exact hBase.ask (fun _ _ => hPicked (by simp) (by simp))
        (fun _ => hSound.drawn _ _ _ hScreen (.inl rfl))
    · split
      · exact hBase.leave
      · exact hBase.ask (fun _ _ => hPicked (by simp) (by simp)) (by simp)
  | change => exact hSound.kept hScreen (.inr (hPicked (by simp) (by simp))) (kept_correct sel)
  | _ => cases hMenu

/- A line is read only after the disk was chosen. -/
theorem TargetSound.input (hInput : menuItems s q = none) : Picked m s := by
  refine hSound.picked q c w hScreen ?_ ?_
  · rintro rfl
    cases hInput
  · rintro rfl
    cases hInput

theorem TargetSound.leftMenu (hMenu : menuItems s q = some n) :
    TargetSound m (s.leftMenu m q c) := by
  have hKept := kept_leftMenu (m := m) hMenu c
  have hPicked := hSound.picked q c w hScreen
  cases q with
  | survey | target => exact hSound.kept hScreen (.inl rfl) hKept
  | _ => exact hSound.kept hScreen (.inr (hPicked (by simp) (by simp))) hKept

end Asking

theorem TargetSound.wordEntered (hRegular : m.Regular) (hSound : TargetSound m s)
    (hScreen : s.screen = .asking .word c w) (t : Text) : TargetSound m (s.wordEntered t) := by
  have hBase := hSound.base hScreen
  have hPicked := hSound.picked _ _ _ hScreen (by simp) (by simp)
  rcases hSound.drawn _ _ _ hScreen (.inr rfl) with ⟨r, hDrawn, hBlocks⟩
  have hSize : (storageQuery m).totalBlocks = (m.disks s.target).blocks := by
    rw [hRegular.size s.target hPicked.inside.1 hPicked.inside.2]
    exact if_pos hBase.present
  unfold Wizard.wordEntered
  by_cases hWord : t = (if s.occupied then replaceWord else confirmWord)
  · rw [if_pos hWord]
    refine ⟨hBase.listed, nofun, nofun, nofun, ?_, nofun, nofun⟩
    intro call hMem
    rcases List.mem_cons.mp hMem with rfl | hOld
    · refine ⟨hPicked.chosen, ⟨r, hDrawn, hBlocks.trans hSize⟩, congrArg mibOf hSize, ?_⟩
      rw [← hPicked.occupied]
      exact hWord
    · rw [hBase.calls] at hOld
      cases hOld
  · rw [if_neg hWord]
    exact hBase.leave

theorem TargetSound.step {k : Key} (hRegular : m.Regular)
    (hSound : TargetSound m s) : TargetSound m (stepKey m s k) := by
  unfold stepKey
  split
  · exact hSound
  · exact hSound
  rename_i q c w hScreen
  have hAgain : ∀ w', TargetSound m (s.ask q c w') :=
    fun _ => (hSound.base hScreen).ask (hSound.picked q c w hScreen) (hSound.drawn q c w hScreen)
  split
  · rename_i n hMenu
    split
    · exact hAgain _
    · exact hSound.chose hScreen hRegular hMenu
    · exact hSound.leftMenu hScreen hMenu
  rename_i hInput
  have hPicked := hSound.input hScreen hInput
  split
  · exact hAgain _
  · rename_i t _
    rcases eq_or_ne q .word with rfl | hWord
    · exact hSound.wordEntered hRegular hScreen t
    · exact hSound.kept hScreen (.inr hPicked) (kept_entered hWord hInput c t)
  · exact hSound.kept hScreen (.inr hPicked) (kept_leftInput hInput c)

theorem targetSound_start (m : Machine) : TargetSound m (start m) := by
  unfold start
  split
  · exact ⟨nofun, nofun, nofun, nofun, nofun, nofun, fun _ => rfl⟩
  rename_i hGoes
  refine TargetBase.ask ⟨by simp, ?_, rfl⟩ (by simp) (by simp)
  rw [← Bool.not_eq_false]
  intro hAbsent
  exact hGoes (.inr (.inr (.inl hAbsent)))

/-
  In every run of keys on a regular machine, a call of
  `SYS_STORAGE_FORMAT` is for the disk that was highlighted,
  and without the call nothing is written.
-/
theorem format_chosen_disk {m : Machine} (hRegular : m.Regular) {s : Wizard}
    (hRun : Lib.Run (stepKey m) (fun _ _ => True) (start m) s) :
    (∀ call ∈ s.calls, TargetRight m s call) ∧ (s.screen = .left → s.calls = []) := by
  have hSound : TargetSound m s := Lib.Run.invariant (TargetSound m)
      (fun _ _ hSound _ => hSound.step hRegular) hRun
      (targetSound_start m)
  exact ⟨hSound.calls, hSound.left⟩

/- Two empty disks of a gigabyte. -/
def twoDisks : Machine := { oneDisk with count := 2 }

/- The second line of the menu is accepted. -/
def picksSecond : List Key := [.down, .enter, .down, .enter] ++ answersAll.drop 2 ++ typesFormat

theorem twoDisks_regular : twoDisks.Regular where
  some := by decide
  answers _ := rfl
  size _ _ _ := rfl
  known _ _ _ := rfl

theorem format_chosen_disk_picksSecond : { plainInstall with device := 1 } ∈
        (runKeys twoDisks (start twoDisks) picksSecond).calls ∧
      ∀ call ∈ (runKeys twoDisks (start twoDisks) picksSecond).calls, TargetRight twoDisks
          (runKeys twoDisks (start twoDisks) picksSecond) call :=
  ⟨by decide +kernel, (format_chosen_disk twoDisks_regular
      (Lib.run_runAll picksSecond (by decide +kernel))).1⟩

/- The first of the two disks does not answer at first. -/
def silentDisk : Machine := { twoDisks with queryFails := fun n => n == 0 }

/- The second disk is larger. -/
def unequalDisks : Machine :=
  { twoDisks with
    disks := fun d => { blocks := if d = 0 then 262144 else 524288, hasVolume := false } }

/- Both disks have a volume; the first one is mounted. -/
def twoVolumes : Machine :=
  { twoDisks with disks := fun _ => { blocks := 262144, hasVolume := true }, mounted := some 0 }

/-
  The disk that is formatted is not the one that was listed; the
  review shows another disk's size; a volume is erased on the
  word for a disk without one.
-/
theorem format_other_disk :
    (∃ call ∈ (runKeys silentDisk (start silentDisk) (answersAll ++ typesFormat)).calls,
      call.device = 0 ∧ (runKeys silentDisk (start silentDisk)
          (answersAll ++ typesFormat)).chosen.map Label.device = some 1) ∧
    (∃ call ∈ (runKeys unequalDisks (start unequalDisks) picksSecond).calls,
      call.device = 1 ∧ (runKeys unequalDisks (start unequalDisks)
          picksSecond).drawn.map Review.diskBlocks ≠ some (unequalDisks.disks 1).blocks) ∧
    ∃ call ∈ (runKeys twoVolumes (start twoVolumes) picksSecond).calls,
      call.device = 1 ∧ (twoVolumes.disks 1).hasVolume = true ∧ call.word = confirmWord := by
  refine ⟨?_, ?_, ?_⟩ <;> decide +kernel

end Horus.Installer

import Horus.Installer.Screens

/-
  What is installed is what was confirmed, as long as the
  corrections from the review are carried through.

  The walk asks every question again on its way forward, so it
  arrives at the review with both passwords confirmed and a
  valid name. A correction that is abandoned returns to the
  same review with its buffer emptied or half-entered, and a
  root password that was mistyped in a correction wipes the
  everyday password, which is then not asked for again.

  Main declarations:
    * `RootSet`, `UserSet`, `Stage`, `Answered`
    * `Steady`
    * `install_confirmed`
    * `install_unconfirmed`
-/

namespace Horus.Installer

open Wizard

variable {s : Wizard} {c : Caller}

/- The root password was confirmed in one question. -/
def RootSet (s : Wizard) : Prop := s.pw ≠ [] ∧ (s.pw, s.pw) ∈ s.rootRuns

def UserSet (s : Wizard) : Prop := s.upw ≠ [] ∧ (s.upw, s.upw) ∈ s.userRuns

/- The call uses the answers that the review `r` showed. -/
structure Install.Shows (call : Install) (r : Review) : Prop where
  user : call.user = r.user
  unsealed : call.unsealed = r.unsealed
  bootable : call.bootable = r.bootable
  swapBlocks : call.swapBlocks = if r.bootable = false ∨ r.swapMib = 0 then 0
    else blocksOf r.swapMib
  volumeBlocks : call.volumeBlocks = if r.volumeMib = 0 then 0 else blocksOf r.volumeMib

structure InstallConfirmed (s : Wizard) (call : Install) : Prop where
  password : call.password ≠ []
  passwordTwice : (call.password, call.password) ∈ s.rootRuns
  userPassword : call.userPassword ≠ []
  userTwice : (call.userPassword, call.userPassword) ∈ s.userRuns
  differ : call.userPassword ≠ call.password
  name : nameOk call.user = true
  shown : ∃ r, s.drawn = some r ∧ call.Shows r

variable (m : Machine)

/- Everything is answered. -/
def Answered (s : Wizard) : Prop := RootSet s ∧ nameOk s.user = true ∧ UserSet s ∧ s.upw ≠ s.pw

/- What is answered when a question is asked. -/
def Stage (s : Wizard) : Caller → Ask → Prop
  | .walk, .userName => RootSet s
  | .walk, .userPassword => RootSet s ∧ nameOk s.user = true
  | .walk, .userAgain => RootSet s ∧ nameOk s.user = true
  | .walk, .review => Answered s
  | .walk, .change => Answered s
  | .walk, .word => Answered s
  | .walk, _ => True
  | .correction, .userName => RootSet s ∧ UserSet s ∧ s.upw ≠ s.pw
  | .correction, .rootPassword => nameOk s.user = true ∧ UserSet s
  | .correction, .rootAgain => nameOk s.user = true ∧ UserSet s
  | .correction, .userPassword => RootSet s ∧ nameOk s.user = true
  | .correction, .userAgain => RootSet s ∧ nameOk s.user = true
  | .correction, _ => Answered s
  | .insisting, .userPassword => RootSet s ∧ nameOk s.user = true
  | .insisting, .userAgain => RootSet s ∧ nameOk s.user = true
  | .insisting, _ => False

/- The review on the screen shows the answers. -/
def Shown (s : Wizard) : Prop :=
  ∃ r, s.drawn = some r ∧ r.user = s.user ∧ r.unsealed = s.unsealed ∧ r.bootable = s.bootable ∧
    r.swapMib = s.swapMib ∧ r.volumeMib = s.volumeMib

structure WizardSound (s : Wizard) : Prop where
  stage : ∀ q c w, s.screen = .asking q c w → Stage s c q
  shown : ∀ q c w, s.screen = .asking q c w → q = .review ∨ q = .word → Shown s
  calls : ∀ call ∈ s.calls, InstallConfirmed s call
  once : ∀ q c w, s.screen = .asking q c w → s.calls = []

/- The questions whose buffers the installation uses. -/
def Ask.keeps : Ask → Bool
  | .rootPassword => true
  | .rootAgain => true
  | .userName => true
  | .userPassword => true
  | .userAgain => true
  | _ => false

/-
  A correction of a name or a password is not abandoned, and a
  root password is not mistyped in one.
-/
def Steady (s : Wizard) (k : Key) : Prop :=
  match s.screen with
  | .asking q .correction w =>
    match tuiInput (inputLimit q) w k with
    | .left => q.keeps = false
    | .entered t => q = .rootAgain → s.pw = [] ∨ s.pw = t
    | .more _ => True
  | _ => True

variable {m}

variable {q : Ask} {w : Widget}

section

variable (hCalls : s.calls = [])

include hCalls

/- A question that is neither the review nor the word. -/
theorem sound_ask (hStage : Stage s c q)
    (hShown : q = .review ∨ q = .word → Shown s) : WizardSound (s.ask q c w) where
  stage := by
    rintro _ _ _ ⟨⟩
    cases c <;> cases q <;> exact hStage
  shown := by
    rintro _ _ _ ⟨⟩ hWhich
    exact hShown hWhich
  calls := by
    rw [show (s.ask q c w).calls = [] from hCalls]
    nofun
  once := fun _ _ _ _ => hCalls

theorem sound_leave : WizardSound s.leaveUntouched where
  stage := nofun
  shown := nofun
  calls := by
    rw [show s.leaveUntouched.calls = [] from hCalls]
    nofun
  once := fun _ _ _ _ => hCalls

theorem sound_drawReview (hAnswered : Answered s) : WizardSound (s.drawReview m) := by
  refine sound_ask (s := { s with drawn := _ }) hCalls hAnswered ?_
  intro _
  exact ⟨_, rfl, rfl, rfl, rfl, rfl, rfl⟩

theorem sound_askSizes (hStage : c = .walk ∨ c = .correction ∧ Answered s) :
    WizardSound (s.askSizes m c) := by
  unfold askSizes
  rcases hStage with rfl | ⟨rfl, hAnswered⟩
  · split <;> exact sound_ask hCalls trivial (by simp)
  · split <;> exact sound_ask hCalls hAnswered (by simp)

theorem sound_takeTarget (sel : Nat) : WizardSound (s.takeTarget m sel) :=
  sound_askSizes hCalls (.inl rfl)

/- The questions about sizes and encryption keep the rest. -/
theorem sound_goOn_rest (hWhich : q = .volumeSize ∨ q = .encryption) (hStage : Stage s c q) :
    WizardSound (s.goOn m q c) := by
  cases c with
  | walk => rcases hWhich with rfl | rfl <;> exact sound_ask hCalls trivial (by simp)
  | correction => rcases hWhich with rfl | rfl <;> exact sound_drawReview hCalls hStage
  | insisting => rcases hWhich with rfl | rfl <;> exact hStage.elim

theorem sound_goBack_rest (hWhich : q = .swapSize ∨ q = .volumeSize ∨ q = .encryption)
    (hStage : Stage s c q) : WizardSound (s.goBack m q c) := by
  cases c with
  | walk =>
    rcases hWhich with rfl | rfl | rfl
    · exact sound_ask hCalls trivial (by simp)
    · exact sound_ask hCalls trivial (by simp)
    · exact sound_askSizes hCalls (.inl rfl)
  | correction => rcases hWhich with rfl | rfl | rfl <;> exact sound_drawReview hCalls hStage
  | insisting => rcases hWhich with rfl | rfl | rfl <;> exact hStage.elim

----
-- Answers
----

theorem sound_swapEntered (hStage : Stage s c .swapSize) (t : Text) :
    WizardSound (s.swapEntered m c t) := by
  have hVolume : Stage s c .volumeSize := by
    cases c <;> exact hStage
  unfold swapEntered
  split
  · refine sound_ask hCalls ?_ (by simp)
    cases c <;> exact hVolume
  split
  · exact sound_ask hCalls hStage (by simp)
  split
  · exact sound_ask hCalls hStage (by simp)
  · refine sound_ask hCalls ?_ (by simp)
    cases c <;> exact hVolume

theorem sound_volumeEntered (hStage : Stage s c .volumeSize) (t : Text) :
    WizardSound (s.volumeEntered m c t) := by
  unfold volumeEntered
  split
  · refine sound_goOn_rest hCalls (.inl rfl) ?_
    cases c <;> exact hStage
  split
  · exact sound_ask hCalls hStage (by simp)
  dsimp only
  split
  · exact sound_ask hCalls hStage (by simp)
  · refine sound_goOn_rest hCalls (.inl rfl) ?_
    cases c <;> exact hStage

theorem sound_volumeLeft (hStage : Stage s c .volumeSize) : WizardSound (s.volumeLeft m c) := by
  unfold volumeLeft
  split
  · refine sound_ask hCalls ?_ (by simp)
    cases c <;> exact hStage
  · exact sound_goBack_rest hCalls (.inr (.inl rfl)) hStage

/- The second line of the root password, in `pw2`. -/
theorem sound_rootEntered (hStage : Stage s c .rootAgain)
    (hTyped : c = .correction → s.pw = [] ∨ s.pw = s.pw2) : WizardSound (s.rootEntered m c) := by
  unfold rootEntered
  split
  · refine sound_ask hCalls ?_ (by simp)
    cases c <;> exact hStage
  rename_i hSome
  split
  · rename_i hDiffer
    refine sound_ask hCalls ?_ (by simp)
    cases c with
    | walk => trivial
    | correction =>
      rcases hTyped rfl with hEmpty | hSame
      · exact absurd hEmpty hSome
      · exact absurd hSame hDiffer
    | insisting => exact hStage
  · rename_i hSame
    rw [not_not] at hSame
    have hRoot : RootSet { s with rootRuns := (s.pw, s.pw2) :: s.rootRuns } := by
      refine ⟨hSome, ?_⟩
      rw [← hSame]
      exact List.mem_cons_self
    cases c with
    | walk => exact sound_ask hCalls hRoot (by simp)
    | insisting => exact hStage.elim
    | correction =>
    simp only [goOn]
    split
    · exact sound_ask hCalls ⟨hRoot, hStage.1⟩ (by simp)
    · rename_i hOther
      exact sound_drawReview hCalls ⟨hRoot, hStage.1, hStage.2, hOther⟩

theorem sound_userEntered (hStage : Stage s c .userAgain) : WizardSound (s.userEntered m c) := by
  have hBoth : RootSet s ∧ nameOk s.user = true := by
    cases c <;> exact hStage
  have hAgain : ∀ t : Wizard, t.calls = [] → (RootSet t ∧ nameOk t.user = true) →
        WizardSound (t.askUserPassword c) := by
    intro t hNone hKept
    refine sound_ask hNone ?_ (by simp)
    cases c <;> exact hKept
  unfold userEntered
  split
  · exact hAgain s hCalls hBoth
  rename_i hSome
  split
  · exact hAgain _ hCalls hBoth
  rename_i hSame
  rw [not_not] at hSame
  split
  · exact hAgain _ hCalls hBoth
  rename_i hOther
  have hAnswered : Answered { s with userRuns := (s.upw, s.upw2) :: s.userRuns } := by
    refine ⟨hBoth.1, hBoth.2, ⟨hSome, ?_⟩, hOther⟩
    rw [← hSame]
    exact List.mem_cons_self
  cases c <;> exact sound_drawReview hCalls hAnswered

theorem sound_wordEntered (hAnswered : Answered s)
    (hShown : Shown s) (t : Text) : WizardSound (s.wordEntered t) := by
  unfold wordEntered
  by_cases hWord : t = (if s.occupied then replaceWord else confirmWord)
  · rw [if_pos hWord]
    refine ⟨nofun, nofun, ?_, nofun⟩
    intro call hMem
    rcases List.mem_cons.mp hMem with rfl | hOld
    · rcases hAnswered with ⟨hRoot, hName, hUser, hDiffer⟩
      rcases hShown with ⟨r, hDrawn, hR, hUnsealed, hBoot, hSwap, hVolume⟩
      refine ⟨hRoot.1, hRoot.2, hUser.1, hUser.2, hDiffer, hName, r, hDrawn, ?_⟩
      refine ⟨hR.symm, hUnsealed.symm, hBoot.symm, ?_, ?_⟩
      · rw [hBoot, hSwap]
        rfl
      · rw [hVolume]
        rfl
    · rw [hCalls] at hOld
      cases hOld
  · rw [if_neg hWord]
    exact sound_leave hCalls

end

----
-- Keys
----

theorem Stage.answered (hStage : Stage s c q) (hWhich : q = .review ∨ q = .change ∨ q = .word) :
    Answered s := by
  cases c with
  | walk | correction => rcases hWhich with rfl | rfl | rfl <;> exact hStage
  | insisting => rcases hWhich with rfl | rfl | rfl <;> exact hStage.elim

section

variable (hSound : WizardSound s) (hCalls : s.calls = []) (hStage : Stage s c q)

include hSound hCalls hStage

theorem sound_chose
    (hShown : q = .review ∨ q = .word → Shown s) (sel : Nat) : WizardSound (s.chose m q c sel) := by
  cases q with
  | survey =>
    simp only [chose]
    split
    · unfold screenTarget
      dsimp only
      split
      · exact sound_takeTarget (s := s.buildTargetList m) hCalls 0
      · exact sound_ask hCalls trivial (by simp)
    · exact sound_leave hCalls
  | target =>
    simp only [chose]
    split
    · exact sound_leave hCalls
    · exact sound_takeTarget hCalls sel
  | encryption =>
    refine sound_goOn_rest hCalls (.inr rfl) ?_
    cases c <;> exact hStage
  | review =>
    have hAnswered := hStage.answered (.inl rfl)
    simp only [chose]
    split
    · exact sound_ask hCalls hAnswered (fun _ => hShown (.inl rfl))
    · split
      · exact sound_leave hCalls
      · exact sound_ask hCalls hAnswered (by simp)
  | change =>
    have hAnswered := hStage.answered (.inr (.inl rfl))
    have ⟨hRoot, hName, hUser, hDiffer⟩ := hAnswered
    simp only [chose, correct]
    split
    · exact sound_ask hCalls ⟨hRoot, hUser, hDiffer⟩ (by simp)
    · exact sound_ask hCalls ⟨hName, hUser⟩ (by simp)
    · exact sound_ask hCalls ⟨hRoot, hName⟩ (by simp)
    · exact sound_askSizes hCalls (.inr ⟨rfl, hAnswered⟩)
    · exact sound_ask hCalls hAnswered (by simp)
    · exact sound_drawReview hCalls hAnswered
  | _ => exact hSound

theorem sound_leftMenu : WizardSound (s.leftMenu m q c) := by
  cases q with
  | survey | target | review => exact sound_leave hCalls
  | encryption => exact sound_goBack_rest hCalls (.inr (.inr rfl)) hStage
  | change => exact sound_drawReview hCalls (hStage.answered (.inr (.inl rfl)))
  | _ => exact hSound

theorem sound_entered (hShown : q = .review ∨ q = .word → Shown s) {t : Text}
    (hTyped : q = .rootAgain → c = .correction → s.pw = [] ∨ s.pw = t) :
    WizardSound (s.entered m q c t) := by
  cases q with
  | swapSize => exact sound_swapEntered hCalls hStage t
  | volumeSize => exact sound_volumeEntered hCalls hStage t
  | rootPassword | userPassword =>
    refine sound_ask hCalls ?_ (by simp)
    cases c <;> exact hStage
  | rootAgain =>
    refine sound_rootEntered hCalls ?_ (hTyped rfl)
    cases c <;> exact hStage
  | userName =>
    simp only [entered]
    split
    · rename_i hName
      cases c with
      | walk => exact sound_ask hCalls ⟨hStage, hName⟩ (by simp)
      | correction => exact sound_drawReview hCalls ⟨hStage.1, hName, hStage.2.1, hStage.2.2⟩
      | insisting => exact hStage.elim
    · refine sound_ask hCalls ?_ (by simp)
      cases c <;> exact hStage
  | userAgain =>
    refine sound_userEntered hCalls ?_
    cases c <;> exact hStage
  | word =>
    exact sound_wordEntered hCalls (hStage.answered (.inr (.inr rfl))) (hShown (.inr rfl)) t
  | _ => exact hSound

/- In a correction only sizes and encryption are left. -/
theorem sound_leftInput
    (hKept : c = .correction → q = .swapSize ∨ q = .volumeSize ∨ q = .word ∨
        (menuItems s q).isSome) :
    WizardSound (s.leftInput m q c) := by
  cases q with
  | swapSize => exact sound_goBack_rest hCalls (.inl rfl) hStage
  | volumeSize => exact sound_volumeLeft hCalls hStage
  | word => exact sound_leave hCalls
  | rootPassword | rootAgain | userName =>
    cases c with
    | walk => exact sound_ask hCalls trivial (by simp)
    | correction => simp [menuItems] at hKept
    | insisting => exact hStage.elim
  | userPassword | userAgain =>
    cases c with
    | walk => exact sound_ask hCalls hStage.1 (by simp)
    | correction => simp [menuItems] at hKept
    | insisting => exact sound_ask hCalls hStage (by simp)
  | _ => exact hSound

end

theorem WizardSound.step {k : Key} (hSound : WizardSound s)
    (hSteady : Steady s k) : WizardSound (stepKey m s k) := by
  unfold stepKey
  split
  · exact hSound
  · exact hSound
  rename_i q c w hScreen
  have hCalls := hSound.once q c w hScreen
  have hStage := hSound.stage q c w hScreen
  have hShown := hSound.shown q c w hScreen
  split
  · split
    · exact sound_ask hCalls hStage hShown
    · exact sound_chose hSound hCalls hStage hShown _
    · exact sound_leftMenu hSound hCalls hStage
  rename_i hInput
  split
  · exact sound_ask hCalls hStage hShown
  · rename_i t hEntered
    refine sound_entered hSound hCalls hStage hShown ?_
    rintro rfl rfl
    unfold Steady at hSteady
    simp only [hScreen, hEntered] at hSteady
    exact hSteady trivial
  rename_i hLeft
  refine sound_leftInput hSound hCalls hStage ?_
  rintro rfl
  unfold Steady at hSteady
  simp only [hScreen, hLeft] at hSteady
  cases q with
  | swapSize => exact .inl rfl
  | volumeSize => exact .inr (.inl rfl)
  | word => exact .inr (.inr (.inl rfl))
  | rootPassword | rootAgain | userName | userPassword | userAgain => cases hSteady
  | _ => cases hInput

theorem sound_start (m : Machine) : WizardSound (start m) := by
  unfold start
  split
  · exact ⟨nofun, nofun, nofun, nofun⟩
  · exact sound_ask rfl trivial (by simp)

/-
  In every run of keys whose corrections are carried through,
  a call of `SYS_STORAGE_FORMAT` uses what was confirmed.
-/
theorem install_confirmed {m : Machine} {s : Wizard}
    (hRun : Lib.Run (stepKey m) Steady (start m) s) {call : Install}
    (hCall : call ∈ s.calls) : InstallConfirmed s call :=
  (Lib.Run.invariant WizardSound (fun _ _ hSound hSteady => hSound.step hSteady) hRun
    (sound_start m)).calls call hCall

instance Steady.decidable (s : Wizard) (k : Key) : Decidable (Steady s k) := by
  unfold Steady
  split
  · split <;> infer_instance
  · infer_instance

/- A machine with one empty disk of a gigabyte. -/
def oneDisk : Machine where
  console := true
  infoFails := false
  count := 1
  disks _ := { blocks := 262144, hasVolume := false }
  present := true
  current := 0
  mounted := none
  espReady := 0
  queryFails _ := false

/- All of the disk, encrypted; `a`, `h` and `b` are typed. -/
def answersAll : List Key :=
  [.down, .enter, .enter, .enter, .char 97, .enter, .char 97,
    .enter, .char 104, .enter, .char 98, .enter, .char 98, .enter]

def typesFormat : List Key := .enter :: confirmWord.map .char ++ [.enter]

def installed : Wizard := runKeys oneDisk (start oneDisk) (answersAll ++ typesFormat)

def plainInstall : Install :=
  { device := 0
    password := [97]
    volumeBlocks := 0
    unsealed := false
    bootable := false
    swapBlocks := 0
    user := [104]
    userPassword := [98]
    word := confirmWord }

theorem install_confirmed_plainInstall :
    plainInstall ∈ installed.calls ∧ InstallConfirmed installed plainInstall :=
  ⟨by decide +kernel, install_confirmed
      (Lib.run_runAll (answersAll ++ typesFormat) (by decide +kernel))
      (by decide +kernel)⟩

/- The root password is corrected and the question left. -/
def abandonsRoot : List Key :=
  answersAll ++ [.down, .enter, .down, .down, .enter, .char 99, .enter, .esc] ++ typesFormat

/- The root password is mistyped once in a correction. -/
def mistypesRoot : List Key :=
  answersAll ++ [.down, .enter, .down, .down, .enter, .char 99, .enter,
      .char 100, .enter, .char 99, .enter, .char 99, .enter] ++
    typesFormat

/- The name is corrected and the question left. -/
def abandonsName : List Key := answersAll ++ [.down, .enter, .down, .enter, .esc] ++ typesFormat

/-
  A root password that was typed once, an everyday password
  that is empty, and a name that is none.
-/
theorem install_unconfirmed :
    (∃ call ∈ (runKeys oneDisk (start oneDisk) abandonsRoot).calls, (call.password, call.password) ∉
        (runKeys oneDisk (start oneDisk) abandonsRoot).rootRuns) ∧
    (∃ call ∈ (runKeys oneDisk (start oneDisk) mistypesRoot).calls, call.userPassword = []) ∧
    ∃ call ∈ (runKeys oneDisk (start oneDisk) abandonsName).calls, nameOk call.user = false := by
  refine ⟨?_, ?_, ?_⟩ <;> decide +kernel

end Horus.Installer

import Horus.Installer.Tui
import Horus.Lib.Runs
import Mathlib.Algebra.Ring.Nat

/-
  The installer (`installer.c`): the questions it asks, and
  what it passes to `SYS_STORAGE_FORMAT`.

  The program is a walk forward and back over its questions
  with a review at the end, from which answers are corrected.
  It is modelled as a machine that takes one key at a time. An
  answer is in its buffer as soon as the line of input is left,
  whether or not it is then refused; a line that is abandoned
  leaves its buffer empty.

  The fields after `screen` record what the operator did: the
  passwords of completed questions, the disk that was
  highlighted, the review that was drawn.
-/

namespace Horus.Installer

def blockSize : Nat := 4096
def targetMax : Nat := 8
def volumeMinMib : Nat := 64
def layoutFixedMib : Nat := 66
def swapDefaultMib : Nat := 1024
def passwordMax : Nat := 31
def userNameMax : Nat := 15

structure DiskInfo where
  blocks : Nat
  hasVolume : Bool

/-
  The disks as the kernel enumerates them, the one its own
  survey is about, the one whose volume it mounted, and which
  of the queries for a device fail.
-/
structure Machine where
  console : Bool
  infoFails : Bool
  count : Nat
  disks : Nat → DiskInfo
  present : Bool
  current : Nat
  mounted : Option Nat
  espReady : Nat
  queryFails : Nat → Bool

/- `struct storage_info`, as far as the installer reads it. -/
structure StorageInfo where
  present : Bool
  recognised : Bool
  totalBlocks : Nat
  deviceCount : Nat
  espReady : Nat

def storageQuery (m : Machine) : StorageInfo :=
  { present := m.present
    recognised := m.present && m.mounted.isSome
    totalBlocks := if m.present then (m.disks m.current).blocks else 0
    deviceCount := m.count
    espReady := m.espReady }

/- `storage_device_query`, the `n`-th time it is called. -/
def storageDeviceQuery (m : Machine) (n d : Nat) : Option StorageInfo :=
  if m.queryFails n ∨ m.count ≤ d then none
  else
    some
      { present := true
        recognised := m.mounted == some d
        totalBlocks := (m.disks d).blocks
        deviceCount := m.count
        espReady := 0 }

/- Blocks in MiB, in 64 bits. -/
def mibOf (blocks : Nat) : Nat := blocks * blockSize % 2 ^ 64 / (1024 * 1024)

def blocksOf (mib : Nat) : Nat := mib * 1024 * 1024 % 2 ^ 64 / blockSize

----
-- State
----

/- The line of a disk in the menu. -/
structure Label where
  device : Nat
  mib : Nat
  hasVolume : Bool
  deriving DecidableEq

/- What the review shows of the answers. -/
structure Review where
  diskBlocks : Nat
  bootable : Bool
  swapMib : Nat
  volumeMib : Nat
  unsealed : Bool
  user : Text
  deriving DecidableEq

/-
  The format call, what is used of the passwords and the name
  after it, and the word that was typed before it.
-/
structure Install where
  device : Nat
  password : Text
  volumeBlocks : Nat
  unsealed : Bool
  bootable : Bool
  swapBlocks : Nat
  user : Text
  userPassword : Text
  word : Text
  deriving DecidableEq

inductive Ask where
  | survey
  | target
  | swapSize
  | volumeSize
  | encryption
  | rootPassword
  | rootAgain
  | userName
  | userPassword
  | userAgain
  | review
  | change
  | word
  deriving DecidableEq

/-
  Who asks: the walk in `_start`, a correction from the review,
  or the review itself, which asks for the everyday password
  until it has one.
-/
inductive Caller where
  | walk
  | correction
  | insisting
  deriving DecidableEq

inductive Screen where
  | asking (q : Ask) (c : Caller) (w : Widget)
  | left
  | formatted

structure Wizard where
  pw : Text
  pw2 : Text
  user : Text
  upw : Text
  upw2 : Text
  target : Nat
  occupied : Bool
  targets : List Label
  volumeMib : Nat
  swapMib : Nat
  bootable : Bool
  unsealed : Bool
  screen : Screen
  queries : Nat
  rootRuns : List (Text × Text)
  userRuns : List (Text × Text)
  chosen : Option Label
  drawn : Option Review
  calls : List Install

namespace Wizard

def ask (s : Wizard) (q : Ask) (c : Caller) (w : Widget) : Wizard :=
  { s with screen := .asking q c w }

def wipeUserPassword (s : Wizard) : Wizard := { s with upw := [], upw2 := [] }

def wipePasswords (s : Wizard) : Wizard := { s.wipeUserPassword with pw := [], pw2 := [] }

def leaveUntouched (s : Wizard) : Wizard := { s.wipePasswords with screen := .left }

end Wizard

variable (m : Machine)

def diskMib : Nat := mibOf (storageQuery m).totalBlocks

namespace Wizard

def swapBlocks (s : Wizard) : Nat :=
  if s.bootable = false ∨ s.swapMib = 0 then 0 else blocksOf s.swapMib

def volumeBlocks (s : Wizard) : Nat := if s.volumeMib = 0 then 0 else blocksOf s.volumeMib

def volumeMaxMib (s : Wizard) : Nat :=
  if s.bootable then diskMib m - (layoutFixedMib + s.swapMib) else diskMib m

end Wizard

def swapRoom : Nat := diskMib m - layoutFixedMib - volumeMinMib

def swapDefault : Nat := if swapDefaultMib ≤ swapRoom m / 4 then swapDefaultMib else 0

/- `parse_mib` on a line that is not empty. -/
def parseMib (s : Text) : Option Nat :=
  s.foldl (fun v c =>
      v.bind fun v => if 48 ≤ c ∧ c ≤ 57 ∧ v ≤ 1000000000 then some (v * 10 + (c - 48)) else none)
    (some 0)

def nameOk (n : Text) : Bool :=
  (match n with
    | [] => false
    | c :: _ => 97 ≤ c && c ≤ 122) &&
    n.all (fun c => (97 ≤ c && c ≤ 122) || (48 ≤ c && c ≤ 57)) &&
    !(n == [114, 111, 111, 116])

namespace Wizard

variable (s : Wizard)

/- A line of input starts with its buffer empty. -/
def askRootPassword (c : Caller) : Wizard := { s with pw := [] }.ask .rootPassword c (.fresh 0)

def askRootAgain (c : Caller) : Wizard := { s with pw2 := [] }.ask .rootAgain c (.fresh 0)

def askUserName (c : Caller) : Wizard := { s with user := [] }.ask .userName c (.fresh 0)

def askUserPassword (c : Caller) : Wizard := { s with upw := [] }.ask .userPassword c (.fresh 0)

def askUserAgain (c : Caller) : Wizard := { s with upw2 := [] }.ask .userAgain c (.fresh 0)

def askEncryption (c : Caller) : Wizard :=
  s.ask .encryption c (.fresh (if s.unsealed then 1 else 0))

def screenSurvey : Wizard := s.ask .survey .walk (.fresh 0)

def askSizes (c : Caller) : Wizard :=
  if (storageQuery m).espReady = 1 then { s with bootable := true }.ask .swapSize c (.fresh 0)
  else { s with bootable := false, swapMib := 0 }.ask .volumeSize c (.fresh 0)

def screenConfirmWord : Wizard := s.ask .word .walk (.fresh 0)

def drawReview : Wizard :=
  { s with
    drawn := some
        { diskBlocks := (storageQuery m).totalBlocks
          bootable := s.bootable
          swapMib := s.swapMib
          volumeMib := s.volumeMib
          unsealed := s.unsealed
          user := s.user } }.ask .review .walk (.fresh 0)

end Wizard

/- A turn of the loop of `build_target_list`. -/
def targetLabel (n d : Nat) : Option Label :=
  (storageDeviceQuery m n d).map fun di =>
    { device := d, mib := mibOf di.totalBlocks, hasVolume := di.recognised }

namespace Wizard

variable (s : Wizard)

/- `build_target_list`: a disk that does not answer is skipped. -/
def buildTargetList : Wizard :=
  let shown := min (storageQuery m).deviceCount targetMax
  { s with
    targets := (List.range shown).filterMap fun d => targetLabel m (s.queries + d) d
    queries := s.queries + shown }

def targetNoteOccupied : Wizard :=
  { s with
    occupied := match storageDeviceQuery m s.queries s.target with
      | none => true
      | some di => di.recognised
    queries := s.queries + 1 }

/- The target is the position in the menu. -/
def takeTarget (sel : Nat) : Wizard :=
  ({ s with target := sel, chosen := s.targets[sel]? }.targetNoteOccupied m).askSizes m .walk

def screenTarget : Wizard :=
  let s := s.buildTargetList m
  if s.targets.length ≤ 1 then s.takeTarget m 0 else s.ask .target .walk (.fresh 0)

end Wizard

----
-- Answers
----

namespace Wizard

variable (s : Wizard)

/- What follows a question that returned 0. -/
def goBack (q : Ask) (c : Caller) : Wizard :=
  match c, q with
  | .walk, .swapSize => s.screenSurvey
  | .walk, .volumeSize => s.screenSurvey
  | .walk, .encryption => s.askSizes m .walk
  | .walk, .rootPassword => s.askEncryption .walk
  | .walk, .userName => s.askRootPassword .walk
  | .walk, .userPassword => s.askUserName .walk
  | .insisting, _ => s.askUserPassword .insisting
  | _, _ => s.drawReview m

/- What follows a question that returned 1. -/
def goOn (q : Ask) (c : Caller) : Wizard :=
  match c, q with
  | .walk, .volumeSize => s.askEncryption .walk
  | .walk, .encryption => s.askRootPassword .walk
  | .walk, .rootPassword => s.askUserName .walk
  | .walk, .userName => s.askUserPassword .walk
  | .correction, .rootPassword =>
    if s.upw = s.pw then s.wipeUserPassword.askUserPassword .insisting else s.drawReview m
  | _, _ => s.drawReview m

/- `ask_swap_size`, when a line was entered. -/
def swapEntered (c : Caller) (t : Text) : Wizard :=
  if t = [] then { s with swapMib := swapDefault m }.ask .volumeSize c (.fresh 0)
  else
    match parseMib t with
    | none => s.ask .swapSize c (.fresh 0)
    | some v =>
      if swapRoom m < v then s.ask .swapSize c (.fresh 0)
      else { s with swapMib := v }.ask .volumeSize c (.fresh 0)

/- `ask_volume_size`, when a line was entered. -/
def volumeEntered (c : Caller) (t : Text) : Wizard :=
  if t = [] then { s with volumeMib := 0 }.goOn m .volumeSize c
  else
    match parseMib t with
    | none => s.ask .volumeSize c (.fresh 0)
    | some v =>
    let dm := s.volumeMaxMib m
    if v < volumeMinMib ∨ dm < v ∨ dm < volumeMinMib then s.ask .volumeSize c (.fresh 0)
    else { s with volumeMib := if v = dm then 0 else v }.goOn m .volumeSize c

/- The end of `ask_volume_size` with 0, in `ask_sizes`. -/
def volumeLeft (c : Caller) : Wizard :=
  if s.bootable then s.ask .swapSize c (.fresh 0) else s.goBack m .volumeSize c

/- The checks of `ask_root_password`. -/
def rootEntered (c : Caller) : Wizard :=
  if s.pw = [] then s.askRootPassword c
  else if s.pw ≠ s.pw2 then s.wipePasswords.askRootPassword c
  else { s with rootRuns := (s.pw, s.pw2) :: s.rootRuns }.goOn m .rootPassword c

/- The checks of `ask_user_password`. -/
def userEntered (c : Caller) : Wizard :=
  if s.upw = [] then s.askUserPassword c
  else if s.upw ≠ s.upw2 then s.wipeUserPassword.askUserPassword c
  else if s.upw = s.pw then s.wipeUserPassword.askUserPassword c
  else { s with userRuns := (s.upw, s.upw2) :: s.userRuns }.goOn m .userPassword c

/- `change_which` and the branches of the review after it. -/
def correct (sel : Nat) : Wizard :=
  match sel with
  | 1 => s.askUserName .correction
  | 2 => s.askRootPassword .correction
  | 3 => s.askUserPassword .correction
  | 4 => s.askSizes m .correction
  | 5 => s.askEncryption .correction
  | _ => s.drawReview m

end Wizard

/- `FORMAT` and `REPLACE`. -/
def confirmWord : Text := [70, 79, 82, 77, 65, 84]

def replaceWord : Text := [82, 69, 80, 76, 65, 67, 69]

namespace Wizard

variable (s : Wizard)

def doInstall (word : Text) : Wizard :=
  { s.wipePasswords with
    screen := .formatted
    calls :=
      { device := s.target
        password := s.pw
        volumeBlocks := s.volumeBlocks
        unsealed := s.unsealed
        bootable := s.bootable
        swapBlocks := s.swapBlocks
        user := s.user
        userPassword := s.upw
        word := word } :: s.calls }

def wordEntered (t : Text) : Wizard :=
  if t = (if s.occupied then replaceWord else confirmWord) then s.doInstall t
  else s.leaveUntouched

----
-- Keys
----

/- An item of a menu was accepted. -/
def chose (q : Ask) (c : Caller) (sel : Nat) : Wizard :=
  match q with
  | .survey => if sel = 1 then s.screenTarget m else s.leaveUntouched
  | .target => if s.targets.length ≤ sel then s.leaveUntouched else s.takeTarget m sel
  | .encryption => { s with unsealed := sel = 1 }.goOn m .encryption c
  | .review =>
    if sel = 0 then s.screenConfirmWord
    else if sel = 2 then s.leaveUntouched
    else s.ask .change .walk (.fresh 0)
  | .change => s.correct m sel
  | _ => s

/- A menu was left without a choice. -/
def leftMenu (q : Ask) (c : Caller) : Wizard :=
  match q with
  | .survey => s.leaveUntouched
  | .target => s.leaveUntouched
  | .encryption => s.goBack m .encryption c
  | .review => s.leaveUntouched
  | .change => s.drawReview m
  | _ => s

/- A line was entered. -/
def entered (q : Ask) (c : Caller) (t : Text) : Wizard :=
  match q with
  | .swapSize => s.swapEntered m c t
  | .volumeSize => s.volumeEntered m c t
  | .rootPassword => { s with pw := t }.askRootAgain c
  | .rootAgain => { s with pw2 := t }.rootEntered m c
  | .userName =>
    if nameOk t then { s with user := t }.goOn m .userName c else { s with user := t }.askUserName c
  | .userPassword => { s with upw := t }.askUserAgain c
  | .userAgain => { s with upw2 := t }.userEntered m c
  | .word => s.wordEntered t
  | _ => s

/- A line was left; its buffer is empty. -/
def leftInput (q : Ask) (c : Caller) : Wizard :=
  match q with
  | .swapSize => s.goBack m .swapSize c
  | .volumeSize => s.volumeLeft m c
  | .rootPassword => { s with pw := [] }.goBack m .rootPassword c
  | .rootAgain => { s with pw2 := [] }.goBack m .rootPassword c
  | .userName => { s with user := [] }.goBack m .userName c
  | .userPassword => { s with upw := [] }.goBack m .userPassword c
  | .userAgain => { s with upw2 := [] }.goBack m .userPassword c
  | .word => s.leaveUntouched
  | _ => s

end Wizard

/- How many items a question has, if it is a menu. -/
def menuItems (s : Wizard) : Ask → Option Nat
  | .survey => some 2
  | .target => some s.targets.length
  | .encryption => some 2
  | .review => some 3
  | .change => some 6
  | _ => none

/- The room in the buffer of a line. -/
def inputLimit : Ask → Nat
  | .swapSize => 10
  | .volumeSize => 10
  | .userName => userNameMax
  | .word => 12
  | _ => passwordMax

def stepKey (s : Wizard) (k : Key) : Wizard :=
  match s.screen with
  | .left => s
  | .formatted => s
  | .asking q c w =>
  match menuItems s q with
  | some n =>
    match tuiMenu n w k with
    | .more w => s.ask q c w
    | .chosen sel => s.chose m q c sel
    | .left => s.leftMenu m q c
  | none =>
    match tuiInput (inputLimit q) w k with
    | .more w => s.ask q c w
    | .entered t => s.entered m q c t
    | .left => s.leftInput m q c

/- `_start`, up to the first question. -/
def start : Wizard :=
  let s : Wizard :=
    { pw := []
      pw2 := []
      user := []
      upw := []
      upw2 := []
      target := 0
      occupied := false
      targets := []
      volumeMib := 0
      swapMib := 0
      bootable := false
      unsealed := false
      screen := .left
      queries := 0
      rootRuns := []
      userRuns := []
      chosen := none
      drawn := none
      calls := [] }
  if m.console = false ∨ m.infoFails = true ∨ (storageQuery m).present = false ∨
      (storageQuery m).espReady = 2 then s
  else s.screenSurvey

def runKeys (s : Wizard) (keys : List Key) : Wizard := Lib.runAll (stepKey m) s keys

end Horus.Installer

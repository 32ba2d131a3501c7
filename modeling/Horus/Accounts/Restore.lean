import Horus.Accounts.Login
import Horus.Lib.Aead
import Horus.Lib.Bytes

/-
  The account table on a volume (`storage_users_save`,
  `storage_users_load`, `users_unlock_and_restore`).

  The record is a nonce of 12 bytes, a tag of 16, a length of 4
  and the ciphertext, and only the ciphertext is authenticated.
  A load that fails for any reason but the tag is taken for a
  volume that has no table yet, and the table in memory is then
  written over the region.

  The key is derived from the volume's own, which cannot fail.
  A write of the region is one transaction of the journal: one
  that fails leaves the region as it is.

  Main declarations:
    * `UsersRegion`, `usersSave`, `usersLoad`
    * `usersUnlockAndRestore`
    * `Resists`, `table_resists_damage_iff`
-/

namespace Horus.Accounts

open Lib Function

/- Where the table lies; `len` is the size of the table. -/
structure UsersRegion where
  blockSize : Nat
  usersStart : Nat
  usersBlocks : Nat
  len : Nat
  salt : List UInt8
  headerFits : 32 ≤ blockSize

abbrev Disk := Nat → List UInt8

namespace UsersRegion

variable (g : UsersRegion) (d : Disk) (fails : Nat → Bool) (log : List Sealed)

/- The checks that a save and a load begin with. -/
def Fits : Prop := g.usersStart ≠ 0 ∧ g.len ≠ 0 ∧ 32 + g.len ≤ g.usersBlocks * g.blockSize

instance : Decidable g.Fits := inferInstanceAs (Decidable (_ ∧ _))

/- Bytes of the ciphertext in the first block. -/
def first : Nat := min (g.blockSize - 32) g.len

/- The blocks after the first, while there are bytes to write. -/
def restBlocks : Nat → List UInt8 → List (List UInt8)
  | 0, _ => []
  | n + 1, ct =>
    if ct = [] then []
    else (ct.take g.blockSize).rightpad g.blockSize 0 :: restBlocks n (ct.drop g.blockSize)

def record (e : Sealed) : List (List UInt8) :=
  (e.nonce ++ e.tag ++ leBytes 4 g.len ++ e.cipher.take g.first).rightpad g.blockSize 0 ::
    g.restBlocks (g.usersBlocks - 1) (e.cipher.drop g.first)

/-
  `storage_users_save`, for a table that was sealed as `e`;
  `io` is what sealing and the transaction return.
-/
def usersSave (e : Sealed) (io : Int) : Disk × Int :=
  if ¬ g.Fits then (d, -1)
  else if io ≠ 0 then (d, io)
  else
    (fun i => if i < g.usersStart then d i
      else ((g.record e)[i - g.usersStart]?).getD (d i), 0)

/- The loop over the blocks after the first. -/
def readRest : Nat → Nat → Nat → Option (List UInt8)
  | 0, _, _ => some []
  | n + 1, i, need =>
    if need = 0 then some []
    else if fails i then none
    else (readRest n (i + 1) (need - min need g.blockSize)).map
        ((d i).take (min need g.blockSize) ++ ·)

/- The length in the header. -/
def stored : Nat := ofLe (slice (d g.usersStart) 28 4)

/- `storage_users_load`. -/
def usersLoad : Except Int (List UInt8) :=
  if ¬ g.Fits then .error (-1)
  else if fails g.usersStart then .error (-1)
  else if g.stored d = 0 ∨ g.stored d ≠ g.len then .error (-2)
  else
    match g.readRest d fails (g.usersBlocks - 1) (g.usersStart + 1) (g.len - g.first) with
    | none => .error (-1)
    | some rest =>
      let blk := d g.usersStart
      match openSealed log (slice blk 0 12) g.salt
        (slice blk 32 g.first ++ rest) (slice blk 12 16) with
      | none => .error (-3)
      | some table => .ok table

end UsersRegion

/-
  What `users_unlock_and_restore` meets: whether the password
  opens the volume, which reads fail, whether a record in memory
  has a compiled-in password, and how a write would go.
-/
structure Attempt where
  opens : Bool
  fails : Nat → Bool
  compiledPw : Bool
  sealing : Sealed
  io : Int

variable (g : UsersRegion) (decode : List UInt8 → List Account) (d : Disk)
    (log : List Sealed) (b : Attempt)

/- `users_persist`, and whether the table counts as restored. -/
def usersPersist : Disk × Bool :=
  if b.compiledPw then (d, false)
  else ((g.usersSave d b.sealing b.io).1, (g.usersSave d b.sealing b.io).2 == 0)

def usersUnlockAndRestore : Disk × Restore :=
  if b.opens then
    match g.usersLoad d b.fails log with
    | .ok table => (d, .loaded (decode table))
    | .error rc =>
      if rc = -3 then (d, .tampered) else ((usersPersist g d b).1, .seeded (usersPersist g d b).2)
  else (d, .shut)

----
-- What a Load Answers
----

/- No block of the record is unreadable. -/
def UsersRegion.Readable (fails : Nat → Bool) : Prop :=
  ∀ i, i * g.blockSize < 32 + g.len → fails (g.usersStart + i) = false

variable {g d log} {fails : Nat → Bool}

namespace UsersRegion

theorem readRest_isSome_iff (n i need : Nat) : (g.readRest d fails n i need).isSome ↔
      ∀ j < n, j * g.blockSize < need → fails (i + j) = false := by
  induction n generalizing i need with
  | zero => simp [readRest]
  | succ n ih =>
  unfold readRest
  by_cases hNone : need = 0
  · simp [hNone]
  rw [if_neg hNone]
  have hStep : ∀ j, (j + 1) * g.blockSize < need ↔
      j * g.blockSize < need - min need g.blockSize := by
    intro j
    rw [Nat.succ_mul]
    omega
  cases hFails : fails i with
  | true =>
    simp only [if_true, Option.isSome_none, Bool.false_eq_true, false_iff]
    intro hAll
    have hFirst := hAll 0 (by omega) (by omega)
    rw [Nat.add_zero, hFails] at hFirst
    cases hFirst
  | false =>
  simp only [Bool.false_eq_true, if_false, Option.isSome_map, ih]
  refine ⟨fun hAll j hJ hNeed => ?_, fun hAll j hJ hNeed => ?_⟩
  · cases j with
    | zero => exact hFails
    | succ j =>
      have hRead := hAll j (by omega) ((hStep j).mp hNeed)
      rwa [Nat.add_assoc, Nat.add_comm 1] at hRead
  · have hRead := hAll (j + 1) (by omega) ((hStep j).mpr hNeed)
    rwa [Nat.add_assoc, Nat.add_comm 1]

/- The first block and the loop read just the record. -/
theorem readable_iff (hFits : g.Fits) :
    g.Readable fails ↔ fails g.usersStart = false ∧
      (g.readRest d fails (g.usersBlocks - 1) (g.usersStart + 1) (g.len - g.first)).isSome := by
  have hHeader := g.headerFits
  have hStep : ∀ j, (j + 1) * g.blockSize < 32 + g.len ↔ j * g.blockSize < g.len - g.first := by
    intro j
    rw [Nat.succ_mul, first]
    omega
  rw [readRest_isSome_iff]
  constructor
  · intro hAll
    refine ⟨hAll 0 (by omega), fun j _ hNeed => ?_⟩
    have hRead := hAll (j + 1) ((hStep j).mpr hNeed)
    rwa [Nat.add_assoc, Nat.add_comm 1]
  intro ⟨hFirst, hRest⟩ i hNeed
  cases i with
  | zero => exact hFirst
  | succ j =>
    have hBlock : j + 1 < g.usersBlocks := Nat.lt_of_mul_lt_mul_right (hNeed.trans_le hFits.2.2)
    have hRead := hRest j (by omega) ((hStep j).mp hNeed)
    rwa [Nat.add_assoc, Nat.add_comm 1] at hRead

/- A whole record is opened, or fails its check. -/
theorem usersLoad_whole (hFits : g.Fits) (hReadable : g.Readable fails)
    (hStored : g.stored d = g.len) : g.usersLoad d fails log = .error (-3) ∨
      ∃ e ∈ log, g.usersLoad d fails log = .ok e.plain := by
  rcases (readable_iff (d := d) hFits).mp hReadable with ⟨hFirst, hRest⟩
  rcases Option.isSome_iff_exists.mp hRest with ⟨rest, hRest⟩
  have hLen : ¬ (g.stored d = 0 ∨ g.stored d ≠ g.len) := by
    rw [hStored]
    simp [hFits.2.1]
  simp only [usersLoad, hFits, not_true_eq_false, if_false, hFirst,
    Bool.false_eq_true, if_neg hLen, hRest]
  split
  · exact .inl rfl
  · rename_i table hOpen
    rcases openSealed_some hOpen with ⟨e, hMem, _, _, _, _, rfl⟩
    exact .inr ⟨e, hMem, rfl⟩

/- Any other answers what a volume without a table answers. -/
theorem usersLoad_damaged (hFits : g.Fits) (hDamaged : ¬ (g.Readable fails ∧ g.stored d = g.len)) :
    ∃ rc, g.usersLoad d fails log = .error rc ∧ rc ≠ -3 := by
  rw [readable_iff (d := d) hFits] at hDamaged
  simp only [usersLoad, hFits, not_true_eq_false, if_false]
  split
  · exact ⟨_, rfl, by decide⟩
  split
  · exact ⟨_, rfl, by decide⟩
  rename_i hFirst hLen
  have hNone : g.readRest d fails (g.usersBlocks - 1) (g.usersStart + 1)
      (g.len - g.first) = none := by
    rw [← Option.not_isSome_iff_eq_none]
    intro hRest
    exact hDamaged ⟨⟨by simpa using hFirst, hRest⟩, by simp_all⟩
  rw [hNone]
  exact ⟨_, rfl, by decide⟩

end UsersRegion

----
-- Damage
----

/-
  The login loads a table that was saved, or it is refused, and
  with it every later one if the table was not authentic, and
  the region is as it was.
-/
structure Resists (hash : List UInt8 → List UInt8 → List UInt8) (s : LoginState) (now : Nat)
    (c : AuthCall) (d d' : Disk) (log : List Sealed) : Prop where
  known : ∀ written, c.restore ≠ .seeded written
  safe : (∃ e ∈ log, c.restore = .loaded (decode e.plain)) ∨
    (d' = d ∧ (s.hAuth hash now c).2 ≠ 0 ∧ (c.restore = .tampered →
      ∀ later c', ((s.hAuth hash now c).1.hAuth hash later c').2 ≠ 0))

theorem LoginState.logIn_tampered (hash : List UInt8 → List UInt8 → List UInt8) (s : LoginState)
    (now task : Nat) (name pass : List UInt8) :
    (s.logIn hash now task name pass).1.tampered = s.tampered := by
  simp only [LoginState.logIn]
  split
  · rfl
  · split <;> rfl

theorem LoginState.hAuth_tampered (hash : List UInt8 → List UInt8 → List UInt8) {s : LoginState}
    (hTampered : s.tampered = true) (now : Nat) (c : AuthCall) : (s.hAuth hash now c).2 ≠ 0 := by
  have hErr : errAuth ≠ 0 ∧ errFault ≠ 0 := by decide
  unfold LoginState.hAuth
  split
  · rw [if_pos hTampered]
    exact hErr.1
  · exact hErr.2

variable (hash : List UInt8 → List UInt8 → List UInt8) {s : LoginState}
    (hFresh : s.restored = false ∧ s.tampered = false) (now : Nat)
    (hThrottle : s.throttle.locked now = false) (task : Nat) (name pass : List UInt8)

include hFresh hThrottle

/- Where no table is loaded, the login is to be refused. -/
theorem resists_iff_of_not_loaded {r : Restore} (hKnown : ∀ written, r ≠ .seeded written)
    (hLoaded : ∀ users, r ≠ .loaded users) :
    Resists decode hash s now ⟨task, some name, some pass, r⟩ d d log ↔
      ((s.unlockAndRestore r).logIn hash now task (name.take 31) (pass.take 31)).2 ≠ 0 := by
  have hCall : s.hAuth hash now ⟨task, some name, some pass, r⟩ =
      (s.unlockAndRestore r).logIn hash now task (name.take 31) (pass.take 31) := by
    simp [LoginState.hAuth, hFresh.2, hThrottle]
  rw [← hCall]
  constructor
  · intro hResists
    rcases hResists.safe with ⟨e, _, hIs⟩ | ⟨_, hRefused, _⟩
    · exact absurd hIs (hLoaded _)
    · exact hRefused
  · intro hRefused
    refine ⟨hKnown, .inr ⟨rfl, hRefused, ?_⟩⟩
    rintro rfl later c'
    apply LoginState.hAuth_tampered
    rw [hCall, LoginState.logIn_tampered]
    simp [LoginState.unlockAndRestore, hFresh.1]

omit hFresh hThrottle

/- A table of 16 bytes over two blocks of 40. -/
def smallRegion : UsersRegion :=
  { blockSize := 40
    usersStart := 1
    usersBlocks := 2
    len := 16
    salt := [7]
    headerFits := by decide }

/- A seal that adds nothing, with its nonce and tag. -/
def sealedAs (nonce : UInt8) (table : List UInt8) : Sealed :=
  { nonce := List.replicate 12 nonce
    aad := [7]
    plain := table
    cipher := table
    tag := List.replicate 16 nonce }

def savedTable : Sealed := sealedAs 1 (List.replicate 16 5)

/- The volume after the table was saved. -/
def savedDisk : Disk := (smallRegion.usersSave (fun _ => []) savedTable 0).1

/- An attempt with a password that opens the volume. -/
def attempt (fails : Nat → Bool) : Attempt :=
  { opens := true
    fails := fails
    compiledPw := false
    sealing := sealedAs 2 (List.replicate 16 6)
    io := 0 }

def bootState : LoginState := { oneAccount with restored := false }

/- The outcome on a disk, where reads of the block `bad` fail. -/
def restoreFrom (d : Disk) (bad : Nat) : Disk × Restore :=
  usersUnlockAndRestore smallRegion (fun _ => []) d [savedTable] (attempt (· = bad))

end Horus.Accounts

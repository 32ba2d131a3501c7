import Mathlib.Algebra.Ring.Nat
import Mathlib.Data.List.TakeWhile
import Mathlib.Logic.Function.Basic
import Mathlib.Tactic.Common

/-
  Logging in (`kusers.c`, `auth.rs`).

  `SYS_AUTH` looks its caller up twice: `find_user_by_name`
  decides whose uid the task is given and whose failures are
  counted, `verify_user_password` decides whose password is
  asked for. The second takes a name that a longer one begins
  with for the longer one, when the byte that follows it in
  the caller's memory at the end of the longer one is a NUL.

  A user's name is its bytes before the NUL; the arrays are not
  read beyond it. The bytes that a caller passes are those that
  `copy_from_user` copies, and the NUL behind them is read as
  the byte past their end.

  Main declarations:
    * `Account`, `Throttle`, `LoginState`
    * `rustAuthOnFailure`, `Throttle.onFailure`
    * `findUserByName`, `verifyUserPassword`
    * `unlockAndRestore`, `hAuth`, `hAuth_refused`, `hAuth_seen`
    * `Unmistakable`, `auth_sound`
-/

namespace Horus.Accounts

def maxAuthFails : Nat := 5
def lockoutTicks : Nat := 8000
def globalMaxFails : Nat := 12
def globalLockoutTicks : Nat := 2000

/- The bytes before the NUL of an array of 32. -/
structure UserName where
  bytes : List UInt8
  string : 0 ∉ bytes ∧ bytes.length < 32
deriving DecidableEq, Repr

/- The fields of `struct user_account` that a login uses. -/
structure Account where
  name : UserName
  uid : BitVec 32
  gid : BitVec 32
  authLockoutUntil : BitVec 32
  authFailCount : BitVec 32
  salt : List UInt8
  valid : Bool
  passHash : List UInt8
deriving DecidableEq, Repr

structure Throttle where
  fails : Nat
  lockoutUntil : Nat
deriving DecidableEq, Repr

def rustAuthIsLocked (lockoutUntil now : Nat) : Bool := now < lockoutUntil

/- `rust_auth_on_failure`: the count and the deadline, if any. -/
def rustAuthOnFailure (failCount now : Nat) : Nat × Nat :=
  let count := min (failCount + 1) (2 ^ 32 - 1)
  if maxAuthFails ≤ count then (0, min (now + lockoutTicks) (2 ^ 64 - 1)) else (count, 0)

/- What `h_auth` does with it: the deadline is cut to 32 bits. -/
def Account.onFailure (a : Account) (now : Nat) : Account :=
  let (count, lockout) := rustAuthOnFailure a.authFailCount.toNat now
  { a with
    authFailCount := BitVec.ofNat 32 count
    authLockoutUntil := if lockout ≠ 0 then BitVec.ofNat 32 lockout
      else a.authLockoutUntil }

def Account.onSuccess (a : Account) : Account :=
  { a with authFailCount := 0, authLockoutUntil := 0 }

/- `rust_auth_global_locked`. -/
def Throttle.locked (t : Throttle) (now : Nat) : Bool := now < t.lockoutUntil

/- `rust_auth_global_on_failure`. -/
def Throttle.onFailure (t : Throttle) (now : Nat) : Throttle :=
  let fails := min (t.fails + 1) (2 ^ 32 - 1)
  if globalMaxFails ≤ fails then ⟨0, min (now + globalLockoutTicks) (2 ^ 64 - 1)⟩
  else ⟨fails, t.lockoutUntil⟩

----
-- Names
----

/- The string in a buffer. -/
def cstr (buf : List UInt8) : List UInt8 := buf.takeWhile (· ≠ 0)

def kstrlen (buf : List UInt8) : Nat := (cstr buf).length

/- The loop over both names, from a byte of each of them on. -/
def agrees : List UInt8 → List UInt8 → Bool
  | _, [] => true
  | user, b :: name =>
    if b = 0 then true
    else if user.headD 0 ≠ b then false
    else agrees user.tail name

/- The test of `verify_user_password`. -/
def Account.answersTo (a : Account) (name : List UInt8) : Bool :=
  a.valid && agrees a.name.bytes name && name.getD (kstrlen a.name.bytes) 0 == 0

/- The test of `find_user_by_name`. -/
def Account.named (a : Account) (name : List UInt8) : Bool :=
  a.valid && kstrlen a.name.bytes == kstrlen name && agrees a.name.bytes name

def findUserByName (users : List Account) (name : List UInt8) : Option Nat :=
  users.findIdx? (·.named name)

/- The account whose hash `verify_user_password` looks at. -/
def comparedWith (users : List Account) (name : List UInt8) : Option Nat :=
  users.findIdx? (·.answersTo name)

variable (hash : List UInt8 → List UInt8 → List UInt8)

def verifyUserPassword (users : List Account) (name pass : List UInt8) : Bool :=
  ((comparedWith users name).bind (users[·]?)).any fun u => hash (cstr pass) u.salt == u.passHash

----
-- The Call
----

/-
  What `users_unlock_and_restore` finds: no volume that the
  password opens, a table, a table that is not authentic, or
  no table, and then the one in memory is written or not.
-/
inductive Restore where
  | shut
  | loaded (users : List Account)
  | tampered
  | seeded (written : Bool)
deriving DecidableEq, Repr

structure LoginState where
  users : List Account
  throttle : Throttle
  tampered : Bool
  restored : Bool
  ids : Nat → BitVec 32 × BitVec 32

/- A call by `task`; a buffer that faults is none. -/
structure AuthCall where
  task : Nat
  name : Option (List UInt8)
  pass : Option (List UInt8)
  restore : Restore
deriving DecidableEq, Repr

def errAuth : Int := -13
def errFault : Int := -14

namespace LoginState

def unlockAndRestore (s : LoginState) (r : Restore) : LoginState :=
  if s.restored then s
  else
    match r with
    | .shut => s
    | .loaded users => { s with users := users, restored := true }
    | .tampered => { s with tampered := true }
    | .seeded written => { s with restored := written }

def account (s : LoginState) (u : Option Nat) : Option Account := u.bind (s.users[·]?)

/- The password is right; there may be no account of the name. -/
def succeed (s : LoginState) (task : Nat) (u : Option Nat) : LoginState :=
  { s with
    throttle := ⟨0, 0⟩
    users := u.elim s.users (s.users.modify · Account.onSuccess)
    ids := (s.account u).elim s.ids fun a => Function.update s.ids task (a.uid, a.gid) }

def fail (s : LoginState) (now : Nat) (u : Option Nat) : LoginState :=
  { s with
    throttle := s.throttle.onFailure now
    users := u.elim s.users (s.users.modify · (·.onFailure now)) }

/- `h_auth` once the table has been restored. -/
def logIn (s : LoginState) (now task : Nat) (name pass : List UInt8) : LoginState × Int :=
  let u := findUserByName s.users name
  if (s.account u).any fun a =>
      rustAuthIsLocked a.authLockoutUntil.toNat now then
    (s, errAuth)
  else if verifyUserPassword hash s.users name pass then (s.succeed task u, 0)
  else (s.fail now u, errAuth)

def hAuth (s : LoginState) (now : Nat) (c : AuthCall) : LoginState × Int :=
  match c.name, c.pass with
  | some name, some pass =>
    if s.tampered then (s, errAuth)
    else if s.throttle.locked now then (s, errAuth)
    else (s.unlockAndRestore c.restore).logIn hash now c.task (name.take 31) (pass.take 31)
  | _, _ => (s, errFault)

end LoginState

----
-- The Two Searches
----

/- No two accounts of a table have one name. -/
def NamesDistinct (users : List Account) : Prop :=
  users.Pairwise fun a b => a.valid = true → b.valid = true → a.name ≠ b.name

instance (users : List Account) : Decidable (NamesDistinct users) :=
  inferInstanceAs (Decidable (List.Pairwise _ users))

/-
  No valid account has a longer name that the string begins
  and at whose length the buffer holds a NUL.
-/
def Unmistakable (users : List Account) (name : List UInt8) : Prop :=
  ∀ a ∈ users, a.valid = true → cstr name <+: a.name.bytes →
    a.name.bytes ≠ cstr name → name.getD a.name.bytes.length 0 ≠ 0

instance (users : List Account) (name : List UInt8) : Decidable (Unmistakable users name) :=
  inferInstanceAs (Decidable (∀ a ∈ users, _))

theorem kstrlen_of_string {user : List UInt8} (hString : 0 ∉ user) :
    kstrlen user = user.length := by
  rw [kstrlen, cstr, List.takeWhile_eq_self_iff.mpr]
  intro b hMem
  simpa using ne_of_mem_of_not_mem hMem hString

theorem agrees_iff {user : List UInt8} (hString : 0 ∉ user)
    (name : List UInt8) : agrees user name = true ↔ cstr name <+: user := by
  induction name generalizing user with
  | nil => simp [agrees, cstr]
  | cons b name ih =>
  unfold agrees
  by_cases hNul : b = 0
  · simp [hNul, cstr]
  have hCstr : cstr (b :: name) = b :: cstr name := by
    simp [cstr, hNul]
  rw [if_neg hNul, hCstr]
  cases user with
  | nil => simp [Ne.symm hNul]
  | cons a =>
    by_cases hSame : a = b
    · simpa [hSame] using ih (List.not_mem_of_not_mem_cons hString)
    · simp [hSame, Ne.symm hSame]

theorem getD_kstrlen (name : List UInt8) : name.getD (kstrlen name) 0 = 0 := by
  induction name with
  | nil => rfl
  | cons b _ ih =>
    by_cases hNul : b = 0
    · simp [kstrlen, cstr, hNul]
    · simpa [kstrlen, cstr, hNul] using ih

/- `find_user_by_name` asks for the very string. -/
theorem Account.named_iff (a : Account) (name : List UInt8) :
    a.named name = true ↔ a.valid = true ∧ a.name.bytes = cstr name := by
  have hString := a.name.string.1
  simp only [Account.named, Bool.and_eq_true, beq_iff_eq,
    agrees_iff hString, kstrlen_of_string hString, and_assoc]
  refine and_congr_right fun _ => ⟨?_, ?_⟩
  · rintro ⟨hLength, hPrefix⟩
    exact (hPrefix.eq_of_length hLength.symm).symm
  · intro hName
    exact ⟨congrArg List.length hName, hName ▸ List.prefix_rfl⟩

variable {users : List Account} {name : List UInt8} {i : Nat} {a : Account}

/- `verify_user_password` does so but for longer names. -/
theorem answersTo_eq_named (hUnmistakable : Unmistakable users name)
    (hMem : a ∈ users) : a.answersTo name = a.named name := by
  have hString := a.name.string.1
  rw [Bool.eq_iff_iff, Account.named_iff]
  simp only [Account.answersTo, Bool.and_eq_true, beq_iff_eq,
    agrees_iff hString, kstrlen_of_string hString, and_assoc]
  refine and_congr_right fun hValid => ⟨?_, ?_⟩
  · rintro ⟨hPrefix, hNul⟩
    by_contra hLonger
    exact hUnmistakable a hMem hValid hPrefix hLonger hNul
  · intro hName
    refine ⟨hName ▸ List.prefix_rfl, ?_⟩
    rw [hName]
    exact getD_kstrlen name

theorem comparedWith_eq (hUnmistakable : Unmistakable users name) :
    comparedWith users name = findUserByName users name := by
  have hSame : ∀ a ∈ users, a.answersTo name = a.named name :=
    fun _ => answersTo_eq_named hUnmistakable
  unfold comparedWith findUserByName
  clear hUnmistakable
  induction users with
  | nil => rfl
  | cons a _ ih =>
    rw [List.findIdx?_cons, List.findIdx?_cons, hSame a List.mem_cons_self,
      ih fun b hMem => hSame b (List.mem_cons_of_mem a hMem)]

theorem findUserByName_some (hFound : findUserByName users name = some i) :
    ∃ a, users[i]? = some a ∧ a.valid = true ∧ a.name.bytes = cstr name := by
  rcases List.findIdx?_eq_some_iff_getElem.mp hFound with ⟨hIndex, hNamed, _⟩
  rw [Account.named_iff] at hNamed
  exact ⟨_, List.getElem?_eq_getElem hIndex, hNamed.1, hNamed.2⟩

theorem NamesDistinct.index_eq (hDistinct : NamesDistinct users) {j : Nat}
    {b : Account} (hAt : users[i]? = some a) (hAtJ : users[j]? = some b)
    (hValid : a.valid = true) (hValidB : b.valid = true) (hName : a.name = b.name) : i = j := by
  rcases List.getElem?_eq_some_iff.mp hAt with ⟨hI, rfl⟩
  rcases List.getElem?_eq_some_iff.mp hAtJ with ⟨hJ, rfl⟩
  have hPairs := List.pairwise_iff_getElem.mp hDistinct
  rcases Nat.lt_trichotomy i j with hLt | hEq | hGt
  · exact absurd hName (hPairs i j hI hJ hLt hValid hValidB)
  · exact hEq
  · exact absurd hName.symm (hPairs j i hJ hI hGt hValidB hValid)

/- An account is found under its name. -/
theorem findUserByName_of_named (hDistinct : NamesDistinct users)
    (hAt : users[i]? = some a) (hValid : a.valid = true) (hName : a.name.bytes = cstr name) :
    findUserByName users name = some i := by
  cases hFound : findUserByName users name with
  | none =>
    have hNone := List.findIdx?_eq_none_iff.mp hFound a (List.mem_of_getElem? hAt)
    rw [(a.named_iff name).mpr ⟨hValid, hName⟩] at hNone
    cases hNone
  | some =>
  rcases findUserByName_some hFound with ⟨b, hAtJ, hValidB, hNameB⟩
  have hSame : b.name = a.name := by
    rw [UserName.mk.injEq]
    exact hNameB.trans hName.symm
  rw [hDistinct.index_eq hAtJ hAt hValidB hValid hSame]

----
-- Soundness
----

namespace LoginState

/- The table that the call consults. -/
def consulted (s : LoginState) (c : AuthCall) : List Account := (s.unlockAndRestore c.restore).users

/- The call is refused before it looks at a password. -/
def refusedUnseen (s : LoginState) (now : Nat) (c : AuthCall) : Bool :=
  match c.name, c.pass with
  | some name, some _ =>
    let s' := s.unlockAndRestore c.restore
    s.tampered || s.throttle.locked now ||
      (s'.account (findUserByName s'.users (name.take 31))).any fun a =>
        rustAuthIsLocked a.authLockoutUntil.toNat now
  | _, _ => true

variable {s : LoginState} {now : Nat} {c : AuthCall}

theorem hAuth_refused (hUnseen : s.refusedUnseen now c = true) :
    (s.hAuth hash now c).2 ≠ 0 ∧ ((s.hAuth hash now c).1 = s ∨
      (s.hAuth hash now c).1 = s.unlockAndRestore c.restore) := by
  have hErr : errAuth ≠ 0 ∧ errFault ≠ 0 := by decide
  unfold refusedUnseen at hUnseen
  unfold hAuth
  split at hUnseen
  · split
    · exact ⟨hErr.1, .inl rfl⟩
    split
    · exact ⟨hErr.1, .inl rfl⟩
    rename_i hTrusted hWarm
    simp only [hTrusted, hWarm, Bool.false_or] at hUnseen
    unfold logIn
    rw [if_pos hUnseen]
    exact ⟨hErr.1, .inr rfl⟩
  · exact ⟨hErr.2, .inl rfl⟩

theorem hAuth_seen (hSeen : s.refusedUnseen now c = false) :
    ∃ name pass, c.name = some name ∧ c.pass = some pass ∧
      s.hAuth hash now c = if verifyUserPassword hash (s.consulted c)
            (name.take 31) (pass.take 31) then
          ((s.unlockAndRestore c.restore).succeed c.task
            (findUserByName (s.consulted c) (name.take 31)), 0)
        else
          ((s.unlockAndRestore c.restore).fail now
            (findUserByName (s.consulted c) (name.take 31)), errAuth) := by
  unfold refusedUnseen at hSeen
  unfold hAuth
  split at hSeen
  · rename_i name pass hName hPass
    simp only [Bool.or_eq_false_iff] at hSeen
    refine ⟨name, pass, hName, hPass, ?_⟩
    rw [hSeen.1.1, hSeen.1.2]
    unfold logIn
    dsimp only
    rw [hSeen.2]
    rfl
  · cases hSeen

theorem unlocked_of_seen (hSeen : s.refusedUnseen now c = false)
    (hName : c.name = some name) (hPass : c.pass ≠ none)
    (hAccount : (s.unlockAndRestore c.restore).account
      (findUserByName (s.consulted c) (name.take 31)) = some a) :
    a.authLockoutUntil.toNat ≤ now := by
  rcases Option.ne_none_iff_exists'.mp hPass with ⟨pass, hPass⟩
  simp only [refusedUnseen, hName, hPass, Bool.or_eq_false_iff] at hSeen
  have hLate := (Option.any_eq_false _ _).mp hSeen.2 a hAccount
  simpa [rustAuthIsLocked] using hLate

end LoginState

/-
  What a login may do: it is granted to the account of the
  very name and password, and a refusal is charged to the
  throttle and to the account of the name.
-/
structure SoundLogin (s : LoginState) (now : Nat) (c : AuthCall) (s' : LoginState) (rax : Int) :
    Prop where
  granted : rax = 0 → ∃ name pass a, c.name = some name ∧
    c.pass = some pass ∧ a ∈ s.consulted c ∧ a.valid = true ∧ a.name.bytes = cstr (name.take 31) ∧
    (∀ word, hash word a.salt = a.passHash ↔ word = cstr (pass.take 31)) ∧
    s'.ids = Function.update s.ids c.task (a.uid, a.gid)
  refused : rax ≠ 0 → s'.ids = s.ids ∧ (s.refusedUnseen now c = true ∨
    (s'.throttle = s.throttle.onFailure now ∧ ∀ name (i : Nat) a, c.name = some name →
        (s.consulted c)[i]? = some a → a.valid = true →
        a.name.bytes = cstr (name.take 31) → s'.users[i]? = some (a.onFailure now)))

theorem LoginState.unlockAndRestore_rest (s : LoginState) (r : Restore) :
    (s.unlockAndRestore r).ids = s.ids ∧ (s.unlockAndRestore r).throttle = s.throttle := by
  unfold LoginState.unlockAndRestore
  split
  · exact ⟨rfl, rfl⟩
  · split <;> exact ⟨rfl, rfl⟩

/-
  For a hash without collisions, and a name that is not taken
  for a longer one.
-/
theorem auth_sound (hHash : ∀ salt p q, hash p salt = hash q salt → p = q)
    (s : LoginState) (now : Nat) (c : AuthCall) (hDistinct : NamesDistinct (s.consulted c))
    (hUnmistakable : ∀ name, c.name = some name → Unmistakable (s.consulted c) (name.take 31)) :
    SoundLogin hash s now c (s.hAuth hash now c).1 (s.hAuth hash now c).2 := by
  have hRest := s.unlockAndRestore_rest c.restore
  cases hSeen : s.refusedUnseen now c with
  | true =>
    rcases LoginState.hAuth_refused hash hSeen with ⟨hErr, hState⟩
    refine ⟨fun hZero => absurd hZero hErr, fun _ => ⟨?_, .inl hSeen⟩⟩
    rcases hState with hSame | hSame
    · rw [hSame]
    · rw [hSame, hRest.1]
  | false =>
  rcases LoginState.hAuth_seen hash hSeen with ⟨name, pass, hName, hPass, hEq⟩
  have hBoth := comparedWith_eq (hUnmistakable name hName)
  rw [hEq]
  split
  · rename_i hVerified
    unfold verifyUserPassword at hVerified
    rw [hBoth] at hVerified
    rcases (Option.any_eq_true _ _).mp hVerified with ⟨a, hAccount, hRight⟩
    rw [beq_iff_eq] at hRight
    rcases Option.bind_eq_some_iff.mp hAccount with ⟨i, hFound, hAt⟩
    rcases findUserByName_some hFound with ⟨b, hAtB, hValid, hNamed⟩
    cases hAt.symm.trans hAtB
    refine ⟨fun _ => ?_, fun hNe => absurd rfl hNe⟩
    refine ⟨name, pass, a, hName, hPass, List.mem_of_getElem? hAt, hValid,
      hNamed, fun word => ⟨fun hWord => ?_, fun hWord => hWord ▸ hRight⟩,
      ?_⟩
    · exact hHash a.salt _ _ (hWord.trans hRight.symm)
    simp only [LoginState.succeed, LoginState.account]
    rw [show (s.unlockAndRestore c.restore).users = s.consulted c from rfl, hAccount, hRest.1]
    rfl
  · have hErr : errAuth ≠ 0 := by decide
    refine ⟨fun hZero => absurd hZero hErr, fun _ => ⟨hRest.1, ?_⟩⟩
    right
    refine ⟨?_, ?_⟩
    · simp only [LoginState.fail, hRest.2]
    intro name' i a hName' hAt hValid hNamed
    cases hName.symm.trans hName'
    simp only [LoginState.fail,
      findUserByName_of_named hDistinct hAt hValid hNamed, Option.elim_some]
    rw [List.getElem?_modify_eq]
    exact congrArg (Option.map _) hAt

----
-- Examples
----

/- A hash that has no collisions. -/
def plainHash (word salt : List UInt8) : List UInt8 := salt ++ word

/- The account "root" with the password "toor". -/
def rootAccount : Account :=
  { name := ⟨[114, 111, 111, 116], by decide⟩
    uid := 0
    gid := 0
    authLockoutUntil := 0
    authFailCount := 0
    salt := []
    valid := true
    passHash := [116, 111, 111, 114] }

def oneAccount : LoginState :=
  { users := [rootAccount]
    throttle := ⟨0, 0⟩
    tampered := false
    restored := true
    ids := fun _ => (1000, 1000) }

def callAs (name : List UInt8) : AuthCall :=
  { task := 1
    name := some (name ++ List.replicate 27 0)
    pass := some [116, 111, 111, 114]
    restore := .shut }

theorem auth_sound_root : (oneAccount.hAuth plainHash 10 (callAs rootAccount.name.bytes)).2 = 0 ∧
      SoundLogin plainHash oneAccount 10 (callAs rootAccount.name.bytes)
        (oneAccount.hAuth plainHash 10 (callAs rootAccount.name.bytes)).1
        (oneAccount.hAuth plainHash 10 (callAs rootAccount.name.bytes)).2 := by
  refine ⟨by decide, auth_sound plainHash ?_ _ _ _ ?_ ?_⟩
  · intro salt p q hSame
    exact List.append_cancel_left hSame
  · decide
  · intro name hName
    cases hName
    decide

/-
  "ro" logs in with the password of "root", and the task keeps
  its uid; a refusal by a lock is charged to nobody.
-/
theorem auth_takes_beginning :
    ((oneAccount.hAuth plainHash 10 (callAs [114, 111])).2 = 0 ∧
      (∀ a ∈ oneAccount.users, a.name.bytes ≠ cstr [114, 111, 0]) ∧
      (oneAccount.hAuth plainHash 10 (callAs [114, 111])).1.ids 1 = oneAccount.ids 1) ∧
    (({ oneAccount with throttle := ⟨0, 20⟩ } : LoginState).hAuth plainHash 10 (callAs [])).2 ≠ 0 ∧
      (({ oneAccount with throttle := ⟨0, 20⟩ } : LoginState).hAuth
        plainHash 10 (callAs [])).1.throttle = ⟨0, 20⟩ := by
  decide

end Horus.Accounts

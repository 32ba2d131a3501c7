import Horus.Accounts.Login
import Horus.Lib.Runs

/-
  What the lockouts of `auth.rs` and `h_auth` bound.

  Three things break the bound. A guess under the beginning of
  a name is compared with the hash of the longer name and
  counted against nobody. A deadline is cut to 32 bits, and the
  tick counter wraps. The deadlines are saved with the table,
  and a boot counts its ticks from zero. The results are about
  runs without these.

  `tick` is the time since boot before it is cut to 32 bits.
  `guesses` are the passwords compared since boot; an account
  is its index in a table, with the number of the table.

  Main declarations:
    * `Guess`, `ThrottleState`, `ThrottleOp`, `throttleExec`
    * `Bounded`, `Explained`, `Timely`
    * `ThrottleSound`, `ThrottleSound.step`
    * `throttle_bounds_guessing`
-/

namespace Horus.Accounts

variable {tick : Nat} {login : LoginState} {c : AuthCall}

/- Whose hash was looked at, and whose name was given. -/
structure Guess where
  compared : Option (Nat × Nat)
  named : Option (Nat × Nat)
  tick : Nat
  granted : Bool
deriving DecidableEq, Repr

structure ThrottleState where
  login : LoginState
  tick : Nat
  table : Nat
  guesses : List Guess

inductive ThrottleOp where
  | auth (tick : Nat) (c : AuthCall)
  | reboot (users : List Account)
deriving DecidableEq, Repr

namespace ThrottleState

/- The accounts that are compiled in have never been used. -/
def boot (users : List Account) : ThrottleState :=
  { login :=
      { users := users.map Account.onSuccess
        throttle := ⟨0, 0⟩
        tampered := false
        restored := false
        ids := fun _ => (0, 0) }
    tick := 0
    table := 0
    guesses := [] }

/- The number of the table that `login` has. -/
def tableAfter (s : ThrottleState) (login : LoginState) (r : Restore) : Nat :=
  match r with
  | .loaded _ => if login.restored && !s.login.restored then s.table + 1 else s.table
  | _ => s.table

variable (hash : List UInt8 → List UInt8 → List UInt8)

def auth (s : ThrottleState) (tick : Nat) (c : AuthCall) : ThrottleState :=
  let now := tick % 2 ^ 32
  let (login, rax) := s.login.hAuth hash now c
  let table := s.tableAfter login c.restore
  let users := s.login.consulted c
  let name := (c.name.getD []).take 31
  { login := login
    tick := tick
    table := table
    guesses := if s.login.refusedUnseen now c then s.guesses
      else
        { compared := (comparedWith users name).map (table, ·)
          named := (findUserByName users name).map (table, ·)
          tick := tick
          granted := rax == 0 } :: s.guesses }

end ThrottleState

def throttleExec (hash : List UInt8 → List UInt8 → List UInt8)
    (s : ThrottleState) : ThrottleOp → ThrottleState
  | .auth tick c => s.auth hash tick c
  | .reboot users => .boot users

/- Time does not run back, and no two accounts share a name. -/
def throttleEnabled (s : ThrottleState) : ThrottleOp → Prop
  | .auth tick c => s.tick ≤ tick ∧ NamesDistinct (s.login.consulted c)
  | .reboot _ => True

/- The table that is restored is authentic, and locks nobody. -/
def Restore.Unlocked (tick : Nat) : Restore → Prop
  | .loaded users => ∀ a ∈ users, a.authLockoutUntil.toNat ≤ tick
  | .tampered => False
  | _ => True

/-
  The call comes before the deadlines outgrow 32 bits, and its
  name is not taken for another.
-/
def Timely (s : ThrottleState) : ThrottleOp → Prop
  | .auth tick c =>
    tick + lockoutTicks < 2 ^ 32 ∧ (∀ name ∈ c.name,
        Unmistakable (s.login.consulted c) (name.take 31)) ∧
      c.restore.Unlocked tick
  | .reboot _ => True

/- The guesses about an account from a tick on. -/
def Guess.since (key : Nat × Nat) (from_ : Nat) (g : Guess) : Bool :=
  g.compared = some key ∧ from_ ≤ g.tick

/-
  At most five passwords are compared with one hash in a window
  without a successful login.
-/
def Bounded (s : ThrottleState) : Prop :=
  ∀ key from_, (∀ g ∈ s.guesses, g.granted = true →
      g.tick < from_ ∨ from_ + lockoutTicks ≤ g.tick) →
    s.guesses.countP (fun g => g.since key from_ &&
      decide (g.tick < from_ + lockoutTicks)) ≤ maxAuthFails

/-
  The right name and password are refused only for a failure of
  that account, or of any account, not long ago.
-/
def Explained (hash : List UInt8 → List UInt8 → List UInt8)
    (s : ThrottleState) (tick : Nat) (c : AuthCall) : Prop :=
  ∀ name pass (i : Nat) a, c.name = some name → c.pass = some pass →
    (s.login.consulted c)[i]? = some a → a.valid = true →
    a.name.bytes = cstr (name.take 31) →
    hash (cstr (pass.take 31)) a.salt = a.passHash →
    (s.login.hAuth hash (tick % 2 ^ 32) c).2 ≠ 0 → (∃ g ∈ s.guesses, g.granted = false ∧
        g.named = some (s.table, i) ∧ tick < g.tick + lockoutTicks) ∨
      ∃ g ∈ s.guesses, g.granted = false ∧ tick < g.tick + globalLockoutTicks

----
-- Counters
----

/- What a guess at `tick` leaves of the counters of `a`. -/
def Account.Counts (a b : Account) (tick : Nat) (granted : Bool) : Prop :=
  if granted then b.authLockoutUntil = 0
  else
    (a.authFailCount.toNat + 1 < maxAuthFails ∧ b.authFailCount.toNat = a.authFailCount.toNat + 1 ∧
      b.authLockoutUntil = a.authLockoutUntil) ∨
    b.authLockoutUntil.toNat = tick + lockoutTicks

theorem Account.counts_onFailure (a : Account) (hTick : tick + lockoutTicks < 2 ^ 32) :
    a.Counts (a.onFailure tick) tick false := by
  simp only [Account.Counts, Bool.false_eq_true, if_false, lockoutTicks, maxAuthFails] at hTick ⊢
  by_cases hMany : 5 ≤ min (a.authFailCount.toNat + 1) (2 ^ 32 - 1)
  · have hOn : rustAuthOnFailure a.authFailCount.toNat tick = (0, tick + 8000) := by
      rw [rustAuthOnFailure, maxAuthFails, if_pos hMany, lockoutTicks, Nat.min_eq_left (by omega)]
    right
    simp only [Account.onFailure, hOn]
    rw [if_pos (by omega), BitVec.toNat_ofNat]
    omega
  · have hOn : rustAuthOnFailure a.authFailCount.toNat tick = (a.authFailCount.toNat + 1, 0) := by
      rw [rustAuthOnFailure, maxAuthFails, if_neg hMany, Nat.min_eq_left (by omega)]
    left
    simp only [Account.onFailure, hOn, BitVec.toNat_ofNat]
    exact ⟨by omega, by omega, if_neg (by simp)⟩

theorem Throttle.onFailure_cases (t : Throttle) {now : Nat} (hNow : now + lockoutTicks < 2 ^ 32) :
    (t.onFailure now).lockoutUntil = t.lockoutUntil ∨
      (t.onFailure now).lockoutUntil = now + globalLockoutTicks := by
  unfold Throttle.onFailure
  simp only [lockoutTicks, globalLockoutTicks] at hNow ⊢
  split
  · right
    exact Nat.min_eq_left (by omega)
  · exact .inl rfl

----
-- The Invariant
----

/-
  An account that is not locked at `n` has at most as many
  guesses in a window up to `n` as it has failures.
-/
structure ThrottleSound (s : ThrottleState) : Prop where
  trusted : s.login.tampered = false
  past : ∀ g ∈ s.guesses, g.tick ≤ s.tick
  tables : ∀ g ∈ s.guesses, ∀ key ∈ g.compared, key.1 ≤ s.table
  deadline : ∀ (i : Nat) a n, s.login.users[i]? = some a → s.tick ≤ n →
    n < a.authLockoutUntil.toNat → ∃ g ∈ s.guesses, g.granted = false ∧
      g.named = some (s.table, i) ∧ n < g.tick + lockoutTicks
  cooldown : ∀ n, s.tick ≤ n → n < s.login.throttle.lockoutUntil →
    ∃ g ∈ s.guesses, g.granted = false ∧ n < g.tick + globalLockoutTicks
  room : ∀ (i : Nat) a n from_, s.login.users[i]? = some a → s.tick ≤ n →
    a.authLockoutUntil.toNat ≤ n → n < from_ + lockoutTicks →
    (∀ g ∈ s.guesses, g.granted = true → g.tick < from_) →
      s.guesses.countP (Guess.since (s.table, i) from_) ≤
        min a.authFailCount.toNat (maxAuthFails - 1)
  bounded : Bounded s

theorem countP_since_eq_zero {guesses : List Guess} {key : Nat × Nat}
    {from_ : Nat} (hNone : ∀ g ∈ guesses, g.compared = some key →
      g.tick < from_) : guesses.countP (Guess.since key from_) = 0 := by
  rw [List.countP_eq_zero]
  intro g hMem
  simp only [Guess.since, decide_eq_true_eq]
  rintro ⟨hKey, hTick⟩
  exact absurd (hNone g hMem hKey) (by omega)

theorem throttleSound_boot (users : List Account) : ThrottleSound (.boot users) where
  trusted := rfl
  past := nofun
  tables := nofun
  deadline := by
    intro i a n hAt _ hLocked
    rcases List.mem_map.mp (List.mem_of_getElem? hAt) with ⟨b, _, rfl⟩
    cases hLocked
  cooldown := nofun
  room := by
    intro i a n from_ _ _ _ _ _
    exact Nat.zero_le _
  bounded := by
    intro key from_ _
    exact Nat.zero_le _

variable {users : List Account}

theorem getElem?_modify_some {f : Account → Account}
    {i j : Nat} {b : Account} (hAt : (users.modify i f)[j]? = some b) :
    ∃ a, users[j]? = some a ∧ b = if some i = some j then f a else a := by
  rw [List.getElem?_modify] at hAt
  rcases Option.map_eq_some_iff.mp hAt with ⟨a, hA, rfl⟩
  refine ⟨a, hA, ?_⟩
  by_cases hEq : i = j
  · rw [if_pos hEq, if_pos (congrArg some hEq)]
  · rw [if_neg hEq, if_neg (by simpa using hEq)]

namespace ThrottleSound

variable {s : ThrottleState} (hSound : ThrottleSound s)

include hSound

/- Time passes, and a table may be restored. -/
theorem advance {table : Nat} (hTick : s.tick ≤ tick) (hTrusted : login.tampered = false)
    (hThrottle : login.throttle = s.login.throttle)
    (hUsers : (login.users = s.login.users ∧ table = s.table) ∨ (table = s.table + 1 ∧
        ∀ a ∈ login.users, a.authLockoutUntil.toNat ≤ tick)) :
    ThrottleSound { s with login := login, tick := tick, table := table } where
  trusted := hTrusted
  past := fun g hMem => (hSound.past g hMem).trans hTick
  tables := by
    intro g hMem key hKey
    have hOld := hSound.tables g hMem key hKey
    dsimp only
    omega
  deadline := by
    intro i a n hAt hNow hLocked
    dsimp only at hAt hNow ⊢
    rcases hUsers with ⟨hSame, rfl⟩ | ⟨_, hOpen⟩
    · rw [hSame] at hAt
      exact hSound.deadline i a n hAt (hTick.trans hNow) hLocked
    · have hDeadline := hOpen a (List.mem_of_getElem? hAt)
      omega
  cooldown := by
    intro n hNow hCool
    rw [hThrottle] at hCool
    exact hSound.cooldown n (hTick.trans hNow) hCool
  room := by
    intro i a n from_ hAt hNow hOpen hWindow hGranted
    dsimp only at hAt hNow hGranted ⊢
    rcases hUsers with ⟨hSame, rfl⟩ | ⟨rfl, _⟩
    · rw [hSame] at hAt
      exact hSound.room i a n from_ hAt (hTick.trans hNow) hOpen hWindow hGranted
    rw [countP_since_eq_zero]
    · exact Nat.zero_le _
    intro g hMem hKey
    have hOld := hSound.tables g hMem _ hKey
    omega
  bounded := hSound.bounded

/- A guess under the name of the account `u`, if any. -/
theorem guess {u : Option Nat} {granted : Bool} (hTrusted : login.tampered = false)
    (hThrottle : login.throttle.lockoutUntil ≤ s.login.throttle.lockoutUntil ∨ granted = false ∧
      login.throttle.lockoutUntil = s.tick + globalLockoutTicks)
    (hUsers : ∀ (i : Nat) b, login.users[i]? = some b → ∃ a, s.login.users[i]? = some a ∧
        if u = some i then a.Counts b s.tick granted else b = a)
    (hOpen : ∀ i, u = some i → ∃ a, s.login.users[i]? = some a ∧
      a.authLockoutUntil.toNat ≤ s.tick) :
    ThrottleSound
      { s with
        login := login
        guesses :=
          { compared := u.map (s.table, ·)
            named := u.map (s.table, ·)
            tick := s.tick
            granted := granted } :: s.guesses } := by
  have hKeep : ∀ {P : Guess → Prop}, (∃ g ∈ s.guesses, P g) →
      ∀ new, ∃ g ∈ new :: s.guesses, P g := by
    rintro P ⟨g, hMem, hG⟩ new
    exact ⟨g, List.mem_cons_of_mem new hMem, hG⟩
  -- what an account of the name has had before, in a window up to now
  have hRoom : ∀ i from_, u = some i → s.tick < from_ + lockoutTicks →
      (∀ g ∈ s.guesses, g.granted = true → g.tick < from_) →
      ∃ a, s.login.users[i]? = some a ∧ s.guesses.countP (Guess.since (s.table, i) from_) ≤
          min a.authFailCount.toNat (maxAuthFails - 1) := by
    intro i from_ hU hWindow hGranted
    rcases hOpen i hU with ⟨a, hA, hUnlocked⟩
    exact ⟨a, hA, hSound.room i a s.tick from_ hA (Nat.le_refl _) hUnlocked hWindow hGranted⟩
  constructor
  · exact hTrusted
  · intro g hMem
    rcases List.mem_cons.mp hMem with rfl | hMem
    · exact Nat.le_refl _
    · exact hSound.past g hMem
  · intro g hMem key hIn
    rcases List.mem_cons.mp hMem with rfl | hMem
    · rcases Option.map_eq_some_iff.mp hIn with ⟨i, _, rfl⟩
      exact Nat.le_refl _
    · exact hSound.tables g hMem key hIn
  · intro i b n hAt hTick hLocked
    rcases hUsers i b hAt with ⟨a, hA, hB⟩
    split at hB
    · rename_i hU
      cases granted with
      | true =>
        rw [show b.authLockoutUntil = 0 from hB] at hLocked
        cases hLocked
      | false =>
      rcases hB with ⟨_, _, hSame⟩ | hNew
      · rw [hSame] at hLocked
        exact hKeep (hSound.deadline i a n hA hTick hLocked) _
      · rw [hNew] at hLocked
        exact ⟨_, List.mem_cons_self, rfl, by simp [hU], hLocked⟩
    · subst hB
      exact hKeep (hSound.deadline i b n hA hTick hLocked) _
  · intro n hTick hCool
    rcases hThrottle with hLess | ⟨rfl, hNew⟩
    · exact hKeep (hSound.cooldown n hTick (hCool.trans_le hLess)) _
    · rw [hNew] at hCool
      exact ⟨_, List.mem_cons_self, rfl, hCool⟩
  · intro i b n from_ hAt hTick hUnlocked hWindow hGranted
    have hOld : ∀ g ∈ s.guesses, g.granted = true → g.tick < from_ :=
      fun g hMem => hGranted g (List.mem_cons_of_mem _ hMem)
    dsimp only at hTick ⊢
    -- a window that begins later has no guesses yet
    by_cases hLate : s.tick < from_
    · rw [countP_since_eq_zero]
      · exact Nat.zero_le _
      intro g hMem _
      rcases List.mem_cons.mp hMem with rfl | hMem
      · exact hLate
      · exact (hSound.past g hMem).trans_lt hLate
    rcases hUsers i b hAt with ⟨a, hA, hB⟩
    split at hB
    · rename_i hU
      cases granted with
      | true => exact absurd (hGranted _ List.mem_cons_self rfl) hLate
      | false =>
      rcases hRoom i from_ hU (by omega) hOld with ⟨a', hA', hCount⟩
      cases hA.symm.trans hA'
      rw [List.countP_cons]
      rcases hB with ⟨hFew, hMore, _⟩ | hNew
      · split <;> omega
      · omega
    · rename_i hU
      subst hB
      rw [List.countP_cons_of_neg]
      · exact hSound.room i b n from_ hA hTick hUnlocked hWindow hOld
      · simp [Guess.since, hU]
  · intro key from_ hGranted
    have hOld : ∀ g ∈ s.guesses, g.granted = true →
        g.tick < from_ ∨ from_ + lockoutTicks ≤ g.tick :=
      fun g hMem => hGranted g (List.mem_cons_of_mem _ hMem)
    rw [List.countP_cons]
    split
    · rename_i hIn
      simp only [Guess.since, Bool.and_eq_true, decide_eq_true_eq] at hIn
      rcases Option.map_eq_some_iff.mp hIn.1.1 with ⟨i, hU, rfl⟩
      rcases hRoom i from_ hU hIn.2 fun g hMem hG =>
          (hOld g hMem hG).resolve_right fun hAfter =>
            absurd (hSound.past g hMem) (by omega) with
        ⟨a, _, hCount⟩
      have hLess : s.guesses.countP (fun g => g.since (s.table, i) from_ &&
          decide (g.tick < from_ + lockoutTicks)) ≤
            s.guesses.countP (Guess.since (s.table, i) from_) := by
        apply List.countP_mono_left
        intro g _ hG
        exact (Bool.and_eq_true_iff.mp hG).1
      simp only [maxAuthFails] at hCount ⊢
      omega
    · exact hSound.bounded key from_ hOld

/- The table that a call consults, and its number. -/
theorem restore (hTimely : Timely s (.auth tick c)) :
    (s.login.unlockAndRestore c.restore).tampered = false ∧
      ((s.login.consulted c = s.login.users ∧ s.tableAfter
          (s.login.unlockAndRestore c.restore) c.restore = s.table) ∨
        (s.tableAfter (s.login.unlockAndRestore c.restore) c.restore = s.table + 1 ∧
          ∀ a ∈ s.login.consulted c, a.authLockoutUntil.toNat ≤ tick)) := by
  have hLoaded := hTimely.2.2
  unfold LoginState.consulted LoginState.unlockAndRestore ThrottleState.tableAfter
  cases hRestored : s.login.restored with
  | true =>
    refine ⟨hSound.trusted, .inl ⟨rfl, ?_⟩⟩
    split <;> simp [hRestored]
  | false =>
  cases hRestore : c.restore with
  | shut | seeded => exact ⟨hSound.trusted, .inl ⟨rfl, rfl⟩⟩
  | loaded =>
    rw [hRestore] at hLoaded
    exact ⟨hSound.trusted, .inr ⟨rfl, hLoaded⟩⟩
  | tampered =>
    rw [hRestore] at hLoaded
    cases hLoaded

variable (hash : List UInt8 → List UInt8 → List UInt8)

theorem auth (hTick : s.tick ≤ tick) (hTimely : Timely s (.auth tick c)) :
    ThrottleSound (s.auth hash tick c) := by
  have hNow : tick % 2 ^ 32 = tick := by
    have hEarly := hTimely.1
    omega
  have hRest := s.login.unlockAndRestore_rest c.restore
  rcases hSound.restore hTimely with ⟨hTrusted, hUsers⟩
  have hRestored := hSound.advance hTick hTrusted hRest.2 hUsers
  unfold ThrottleState.auth
  simp only [hNow]
  cases hSeen : s.login.refusedUnseen tick c with
  | true =>
    rcases (LoginState.hAuth_refused hash hSeen).2 with hSame | hSame
    · rw [hSame]
      refine hSound.advance hTick hSound.trusted rfl (.inl ⟨rfl, ?_⟩)
      unfold ThrottleState.tableAfter
      split <;> simp
    · rw [hSame]
      exact hRestored
  | false =>
  rcases LoginState.hAuth_seen hash hSeen with ⟨name, pass, hName, hPass, hEq⟩
  have hBoth := comparedWith_eq (hTimely.2.1 name hName)
  -- whoever is named has an account that is not locked
  have hOpen : ∀ i, findUserByName (s.login.consulted c)
      (name.take 31) = some i → ∃ a, (s.login.consulted c)[i]? = some a ∧
        a.authLockoutUntil.toNat ≤ tick := by
    intro i hFound
    rcases findUserByName_some hFound with ⟨a, hAt, _⟩
    refine ⟨a, hAt, LoginState.unlocked_of_seen hSeen hName
      (by rw [hPass]; exact Option.some_ne_none pass) ?_⟩
    rw [hFound]
    exact hAt
  rw [hEq, hName, Option.getD_some, hBoth]
  split
  · rename_i hVerified
    unfold verifyUserPassword at hVerified
    rw [hBoth] at hVerified
    rcases (Option.any_eq_true _ _).mp hVerified with ⟨a, hAccount, _⟩
    refine hRestored.guess hTrusted (.inl (Nat.zero_le _)) ?_ hOpen
    intro j b hAt
    rcases Option.bind_eq_some_iff.mp hAccount with ⟨i, hFound, _⟩
    rw [hFound] at hAt ⊢
    rcases getElem?_modify_some hAt with ⟨a', hA', rfl⟩
    refine ⟨a', hA', ?_⟩
    split <;> rfl
  · refine hRestored.guess hTrusted ?_ ?_ hOpen
    · rcases (s.login.unlockAndRestore
        c.restore).throttle.onFailure_cases hTimely.1 with hSame | hNew
      · exact .inl hSame.le
      · exact .inr ⟨rfl, hNew⟩
    intro j b hAt
    cases hFound : findUserByName (s.login.consulted c) (name.take 31) with rw [hFound] at hAt
    | none => exact ⟨b, hAt, rfl⟩
    | some =>
      rcases getElem?_modify_some hAt with ⟨a', hA', rfl⟩
      refine ⟨a', hA', ?_⟩
      split
      · exact a'.counts_onFailure hTimely.1
      · rfl

theorem explained (hTick : s.tick ≤ tick) (hDistinct : NamesDistinct (s.login.consulted c))
    (hTimely : Timely s (.auth tick c)) : Explained hash s tick c := by
  intro name pass i a hName hPass hAt hValid hNamed hRight hRefused
  have hNow : tick % 2 ^ 32 = tick := by
    have hEarly := hTimely.1
    omega
  have hFound := findUserByName_of_named hDistinct hAt hValid hNamed
  rw [hNow] at hRefused
  cases hSeen : s.login.refusedUnseen tick c with
  | true =>
    simp only [LoginState.refusedUnseen, hName, hPass, Bool.or_eq_true,
      hSound.trusted, Bool.false_eq_true, false_or] at hSeen
    rcases hSeen with hCool | hLocked
    · exact .inr (hSound.cooldown tick hTick (of_decide_eq_true hCool))
    left
    rcases (Option.any_eq_true _ _).mp hLocked with ⟨a', hAccount, hDeadline⟩
    rw [show findUserByName (s.login.unlockAndRestore c.restore).users
      (name.take 31) = some i from hFound] at hAccount
    cases hAt.symm.trans hAccount
    have hLate : tick < a.authLockoutUntil.toNat := of_decide_eq_true hDeadline
    rcases (hSound.restore hTimely).2 with ⟨hSame, _⟩ | ⟨_, hOpen⟩
    · rw [hSame] at hAt
      exact hSound.deadline i a tick hAt hTick hLate
    · have hBefore := hOpen a (List.mem_of_getElem? hAt)
      omega
  | false =>
    rcases LoginState.hAuth_seen hash hSeen with ⟨name', pass', hName', hPass', hEq⟩
    cases hName.symm.trans hName'
    cases hPass.symm.trans hPass'
    have hVerified : verifyUserPassword hash (s.login.consulted c)
        (name.take 31) (pass.take 31) = true := by
      unfold verifyUserPassword
      rw [comparedWith_eq (hTimely.2.1 name hName), hFound,
        Option.bind_some, hAt, Option.any_some, hRight]
      exact beq_self_eq_true _
    rw [hEq, if_pos hVerified] at hRefused
    exact absurd rfl hRefused

theorem step {op : ThrottleOp} (hEnabled : throttleEnabled s op)
    (hTimely : Timely s op) : ThrottleSound (throttleExec hash s op) := by
  cases op with
  | auth => exact hSound.auth hash hEnabled.1 hTimely
  | reboot users => exact throttleSound_boot users

end ThrottleSound

/-
  In every run without the steps named above.
-/
theorem throttle_bounds_guessing (hash : List UInt8 → List UInt8 → List UInt8) {s : ThrottleState}
    (hRun : Lib.Run (throttleExec hash)
      (fun s op => throttleEnabled s op ∧ Timely s op) (.boot users) s) :
    Bounded s ∧ ∀ tick c, throttleEnabled s (.auth tick c) →
      Timely s (.auth tick c) → Explained hash s tick c := by
  have hSound : ThrottleSound s := Lib.Run.invariant ThrottleSound
      (fun _ _ hSound hOk => hSound.step hash hOk.1 hOk.2) hRun
      (throttleSound_boot users)
  exact ⟨hSound.bounded, fun tick c hEnabled hTimely =>
    hSound.explained hash hEnabled.1 hEnabled.2 hTimely⟩

----
-- Examples
----

instance (s : ThrottleState) (op : ThrottleOp) : Decidable (throttleEnabled s op) := by
  cases op with
  | auth => exact inferInstanceAs (Decidable (_ ∧ NamesDistinct _))
  | reboot => exact instDecidableTrue

instance (tick : Nat) (r : Restore) : Decidable (r.Unlocked tick) := by
  cases r with
  | loaded users => exact inferInstanceAs (Decidable (∀ a ∈ users, _))
  | tampered => exact instDecidableFalse
  | shut | seeded => exact instDecidableTrue

instance (s : ThrottleState) (op : ThrottleOp) : Decidable (Timely s op) := by
  cases op with
  | auth tick c =>
    exact inferInstanceAs (Decidable (_ ∧ (∀ name ∈ c.name, _) ∧ c.restore.Unlocked tick))
  | reboot => exact instDecidableTrue

def callWith (name pass : List UInt8) (restore : Restore) : AuthCall :=
  { task := 1, name := some (name ++ List.replicate 27 0), pass := some pass, restore := restore }

def afterAuths (ops : List ThrottleOp) : ThrottleState :=
  Lib.runAll (throttleExec plainHash) (.boot [rootAccount]) ops

/- Wrong passwords under one name, at one tick. -/
def wrong (n tick : Nat) (name : List UInt8) : List ThrottleOp :=
  List.replicate n (.auth tick (callWith name [] .shut))

theorem throttle_bounds_guessing_wrong :
    (afterAuths (wrong 5 10 rootAccount.name.bytes)).guesses.length = 5 ∧
      Bounded (afterAuths (wrong 5 10 rootAccount.name.bytes)) :=
  ⟨by decide +kernel, (throttle_bounds_guessing plainHash (Lib.run_runAll _ (by decide +kernel))).1⟩

/- The table of root as it was saved while root was locked. -/
def savedLocked : Restore := .loaded [{ rootAccount with authLockoutUntil := 900000 }]

/-
  Six guesses under "ro" are compared with the hash of "root";
  so are six under "root" when the deadline wraps; and after a
  reboot a lock that was saved is still counted.
-/
theorem throttle_fails :
    ¬ Bounded (afterAuths (wrong 6 10 [114, 111])) ∧
    ¬ Bounded (afterAuths (wrong 6 (2 ^ 32 - 1) rootAccount.name.bytes)) ∧
    ¬ Explained plainHash (afterAuths []) 10 (callWith rootAccount.name.bytes rootAccount.passHash
        savedLocked) := by
  refine ⟨fun hBounded => ?_, fun hBounded => ?_, fun hExplained => ?_⟩
  · have hFive := hBounded (0, 0) 10 (by decide +kernel)
    revert hFive
    decide +kernel
  · have hFive := hBounded (0, 0) (2 ^ 32 - 1) (by decide +kernel)
    revert hFive
    decide +kernel
  · rcases hExplained _ _ 0 _ rfl rfl rfl rfl rfl (by decide)
        (by decide +kernel) with ⟨g, hMem, _⟩ | ⟨g, hMem, _⟩
    · cases hMem
    · cases hMem

end Horus.Accounts

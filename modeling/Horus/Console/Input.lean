import Horus.Console.Server
import Horus.Kernel.Taken
import Mathlib.Data.List.ReduceOption

/-
  Who gets what is typed.

  The server looks at the token of a request once, when it
  takes the request from the queue, and then waits for a line
  as long as it takes. As long as no task loses the keyboard
  while a request it made is waiting or being served, and no
  rest of a key is left over, what is typed reaches only tasks
  that hold the keyboard when it is typed; and a copy that was
  taken back gives nothing to anyone it was passed to.

  Main declarations:
    * `Entitled`
    * `Careful`, `ConRun`
    * `ConSound`, `ConSound.step`
    * `typed_reaches_holder`
    * `typed_reaches_others`
-/

namespace Horus.Console

open ConState
open Function

variable {v : Serve} {c : CapState} {t gen : Nat} {o : Op}

/- The console's endpoint, tokened for input. -/
def IsInput (c : Capability) : Prop :=
  c.typ = .endpoint ∧ c.object = conEpReq ∧ c.token = conTokenInput

instance (c : Capability) : Decidable (IsInput c) := by
  unfold IsInput
  infer_instance

def HoldsInput (c : CapState) (t : Nat) : Prop := ∃ a, c.Owns t a ∧ IsInput (c.mem a)

/-
  When the byte was read, the incarnation held the keyboard,
  by a capability that was not made from a copy taken back.
-/
def Entitled (b : Typed) (t gen : Nat) : Prop :=
  (b.caps.tasks t).slotGen = gen ∧ ∃ a, b.caps.Owns t a ∧ IsInput (b.caps.mem a) ∧ ∀ c ∈ b.back,
        ¬ MadeFrom b.caps.log (b.caps.mem a).serial c

def ConRequest.reads : ConRequest → Bool
  | .getline _ => true
  | .getpass _ => true
  | .readRaw _ => true
  | _ => false

/- A request that is served what is typed. -/
def ConMsg.reader (m : ConMsg) : Bool := m.rq.reads && conInputPermitted m

variable {m : ConMsg}

namespace Serve

/- The request that is being served. -/
def msg : Serve → Option ConMsg
  | .idle => none
  | .line m _ _ _ _ => some m
  | .raw m _ _ => some m
  | .replying m _ _ => some m

/- The request for which the server reads. -/
def reading : Serve → Option ConMsg
  | .line m _ _ _ _ => some m
  | .raw m _ _ => some m
  | _ => none

def out : Serve → List (Option Typed)
  | .idle => []
  | .line _ _ _ out _ => out
  | .raw _ _ out => out
  | .replying _ _ out => out

theorem msg_of_reading (hReading : v.reading = some m) : v.msg = some m := by
  cases v with
  | idle => cases hReading
  | line | raw => exact hReading
  | replying => cases hReading

end Serve

/- The requests for input that wait or are being served. -/
def ConState.readers (s : ConState) : List ConMsg :=
  (s.serve.reading.toList ++ s.queue).filter ConMsg.reader

/- Slot `slot` of `t` holds the copy and it can be revoked. -/
def ConState.HoldsCopy (s : ConState) (t slot : Nat) : Prop :=
  ∃ a, s.sys.cap.Owns t a ∧ a.slot = slot ∧ (s.sys.cap.mem a).typ ≠ .null ∧
    (s.sys.cap.mem a).serial = (s.lends t slot).copy ∧ (capRevoke s.sys t slot).1 = true

/- What an operation on capabilities must not do. -/
structure CarefulOp (s : ConState) (o : Op) : Prop where
  quiet : (exec s.sys o).2 = s.sys ∨ Undisturbed s.sys o
  fresh : ∀ id, o.creates = some id → (s.sys.cap.tasks id).slotGen + 1 < 2 ^ 48
  keeps : ∀ m ∈ s.readers, HoldsInput s.sys.cap m.sender →
    alive (exec s.sys o).2.cap m.sender m.senderGen = true →
    HoldsInput (exec s.sys o).2.cap m.sender

/-
  No waiting reader loses the keyboard, a copy is taken back
  from the slot it was made in, and a reply leaves no rest of
  a key.
-/
structure Careful (s : ConState) (op : ConOp) : Prop where
  kernel : ∀ o, op.kernelOp s = some o → CarefulOp s o
  takes : ∀ t slot, op = .unlend t slot → (s.lends t slot).lent = true → s.HoldsCopy t slot ∨
      Gone (capRevoke s.sys t slot).2.cap (s.lends t slot).copy
  tail : ∀ waits, op = .reply waits → s.pending = []

def ConRun (s t : ConState) : Prop :=
  Lib.Run conStep (fun s op => conEnabled s op = true ∧ Careful s op) s t

theorem alive_iff : alive c t gen = true ↔ c.running t = true ∧ (c.tasks t).slotGen = gen := by
  simp [alive]

/- An incarnation that is known and dead stays dead. -/
theorem exec_alive {s : Sys}
    (hFresh : ∀ id, o.creates = some id →
      (s.cap.tasks id).slotGen + 1 < 2 ^ 48) (hKnown : gen ≤ (s.cap.tasks t).slotGen) :
    gen ≤ ((exec s o).2.cap.tasks t).slotGen ∧
      (alive (exec s o).2.cap t gen = true → alive s.cap t gen = true) := by
  cases hCreates : o.creates with
  | some id =>
    have hNew := exec_creates s o id hCreates
    rcases eq_or_ne t id with rfl | hId
    · have hGen := hNew.gen
      have hRoom := hFresh t hCreates
      rw [Nat.mod_eq_of_lt (by omega)] at hGen
      refine ⟨by omega, ?_⟩
      intro hAlive
      have hSame := (alive_iff.mp hAlive).2
      omega
    · have hTask := hNew.other.tasks t hId
      rw [alive_iff, alive_iff, CapState.running, hTask, hNew.other.maxTasks]
      exact ⟨hKnown, fun h => h⟩
  | none =>
    by_cases hLife : ∃ id scratch, o = .teardown id scratch
    · rcases hLife with ⟨id, scratch, rfl⟩
      by_cases hDead : (s.cap.tasks id).state = .dead
      · have hSame : taskTeardown s id scratch = s := by
          exact if_pos hDead
        simp only [exec, hSame]
        exact ⟨hKnown, fun h => h⟩
      have hTasks := taskTeardown_tasks s id scratch hDead
      simp only [exec, alive_iff, CapState.running, hTasks.1, hTasks.2]
      rcases eq_or_ne t id with rfl | hId
      · rw [update_self]
        refine ⟨hKnown, ?_⟩
        rintro ⟨hRun, _⟩
        simp at hRun
      · rw [update_of_ne hId]
        exact ⟨hKnown, fun h => h⟩
    · have hSame := exec_sameTasks s o (o.plain_of_creates hCreates
          (fun id scratch hIs => hLife ⟨id, scratch, hIs⟩))
      rw [alive_iff, alive_iff, CapState.running, hSame.tasks, hSame.maxTasks]
      exact ⟨hKnown, fun h => h⟩

structure ConSound (cfg : BootConfig) (s : ConState) : Prop where
  run : RunsWhile Undisturbed (boot cfg) s.sys
  known : ∀ m ∈ s.serve.msg.toList ++ s.queue, m.senderGen ≤ (s.sys.cap.tasks m.sender).slotGen
  readers : ∀ m ∈ s.readers, alive s.sys.cap m.sender m.senderGen = true →
    HoldsInput s.sys.cap m.sender
  reading : ∀ m, s.serve.reading = some m → m.reader = true
  typed : ∀ m, s.serve.msg = some m → alive s.sys.cap m.sender m.senderGen = true →
    ∀ b ∈ s.serve.out.reduceOption ++ s.pending, Entitled b m.sender m.senderGen
  quiet : s.serve = .idle → s.pending = []
  gone : ∀ c ∈ s.back, c ≠ 0 ∧ Gone s.sys.cap c
  copies : ∀ t slot, (s.lends t slot).lent = true → minDerivedSerial < (s.lends t slot).copy
  delivered : ∀ d ∈ s.delivered, Entitled d.typed d.task d.gen

variable {cur slot max : Nat} {b : Typed} {out : List (Option Typed)} {op : ConOp}

section Sound

variable {cfg : BootConfig} {s : ConState}

theorem ConState.mem_readers :
    m ∈ s.readers ↔ (s.serve.reading = some m ∨ m ∈ s.queue) ∧ m.reader = true := by
  unfold readers
  rw [List.mem_filter, List.mem_append, Option.mem_toList]

/- A byte read now is for a holder of the keyboard. -/
theorem ConSound.entitled_now (hSound : ConSound cfg s) (hReading : s.serve.reading = some m)
    (hAlive : alive s.sys.cap m.sender m.senderGen = true) (b : Nat) :
    Entitled (s.typed b) m.sender m.senderGen := by
  have hReader : m ∈ s.readers := mem_readers.mpr ⟨.inl hReading, hSound.reading m hReading⟩
  rcases hSound.readers m hReader hAlive with ⟨a, hOwns, hInput⟩
  refine ⟨(alive_iff.mp hAlive).2, a, hOwns, hInput, ?_⟩
  intro c hBack
  have hTables := hSound.run.tracked.1
  refine (hSound.gone c hBack).2.none a ⟨hTables.visible_of_owns hOwns, ?_⟩
  rw [hInput.1]
  simp

----
-- Operations on Capabilities
----

theorem ConSound.ran (hSound : ConSound cfg s)
    (hEnabled : enabled s.sys.cap o = true) (hCareful : CarefulOp s o) :
    ConSound cfg { s with sys := (exec s.sys o).2 } := by
  have hAlive := fun m hMem => exec_alive (s := s.sys) (o := o) hCareful.fresh (hSound.known m hMem)
  refine ⟨?_, ?_, ?_, hSound.reading, ?_, hSound.quiet, ?_, hSound.copies, hSound.delivered⟩
  · rcases hCareful.quiet with hSame | hUndisturbed
    · rw [hSame]
      exact hSound.run
    · exact hSound.run.snoc o hEnabled hUndisturbed
  · intro m hMem
    exact (hAlive m hMem).1
  · intro m hMem hNow
    have hIn : m ∈ s.serve.msg.toList ++ s.queue := by
      rcases (mem_readers.mp hMem).1 with hServed | hQueued
      · rw [Serve.msg_of_reading hServed]
        exact List.mem_append_left _ (by simp)
      · exact List.mem_append_right _ hQueued
    exact hCareful.keeps m hMem (hSound.readers m hMem ((hAlive m hIn).2 hNow)) hNow
  · intro m hMsg hNow b hMem
    have hIn : m ∈ s.serve.msg.toList ++ s.queue := by
      rw [hMsg]
      exact List.mem_append_left _ (by simp)
    exact hSound.typed m hMsg ((hAlive m hIn).2 hNow) b hMem
  · intro c hBack
    rcases hSound.gone c hBack with ⟨hC, hGone⟩
    refine ⟨hC, ?_⟩
    rcases hCareful.quiet with hSame | hUndisturbed
    · rw [hSame]
      exact hGone
    · exact Gone.exec hSound.run hEnabled hUndisturbed hC hGone

theorem ConSound.setLend (hSound : ConSound cfg s) (t slot : Nat) {l : ConLend}
    (hCopy : l.lent = true → minDerivedSerial < l.copy) : ConSound cfg (s.setLend t slot l) := by
  refine { hSound with copies := fun t' slot' hLent => ?_ }
  simp only [ConState.setLend] at hLent ⊢
  rcases eq_or_ne t' t with rfl | hTask
  · rw [update_self] at hLent ⊢
    rcases eq_or_ne slot' slot with rfl | hSlot
    · rw [update_self] at hLent ⊢
      exact hCopy hLent
    · rw [update_of_ne hSlot] at hLent ⊢
      exact hSound.copies t' slot' hLent
  · rw [update_of_ne hTask] at hLent ⊢
    exact hSound.copies t' slot' hLent

/- The copy that `console_lend` makes has a serial of its own. -/
theorem capMint_serial (hTables : Tables c)
    {dest src : Nat} {rights : Rights} (hRun : c.running cur = true)
    (hTrue : (capMint c cur dest src rights).1 = true) :
    ∃ space, (c.tasks cur).cspace = some space ∧
      minDerivedSerial < ((capMint c cur dest src rights).2.mem ⟨space, dest⟩).serial := by
  unfold capMint mintThrough at hTrue ⊢
  split at hTrue
  · cases hTrue
  rename_i b d hSlots
  rcases hTables.mintSlots_eq_some hRun hSlots with ⟨hOwns, hSrc, _, _, _, _, rfl, _⟩
  rcases b with ⟨space, slot⟩
  cases hSrc
  refine ⟨space, hOwns.space, ?_⟩
  cases hCore : rustCapMint c.mem c.nextSerial (some space)
      (c.tasks cur).cspaceSz dest slot rights with
  | none =>
    simp only [hCore, CapState.commit] at hTrue
    cases hTrue
  | some =>
    rcases rustCapMint_eq_some hCore with ⟨rfl, _, _, _, _, _, hFresh⟩
    simp only [hCore, CapState.commit, update_self]
    rcases assignFreshSerial_cases c.nextSerial with ⟨hZero, _⟩ | ⟨hNew, _⟩
    · exact absurd hZero hFresh
    · change minDerivedSerial < (assignFreshSerial c.nextSerial).1
      omega

namespace ConSound

variable (hSound : ConSound cfg s)

include hSound

theorem ranOption {o : Option Op} (hEnabled : ∀ op, o = some op → enabled s.sys.cap op = true)
    (hCareful : ∀ op, o = some op → CarefulOp s op) : ConSound cfg (s.run o).2 := by
  cases o with
  | none => exact hSound
  | some op => exact hSound.ran (hEnabled op rfl) (hCareful op rfl)

theorem lendMint
    (hEnabled : ∀ op, ConOp.kernelOp s (.lendMint t slot) = some op → enabled s.sys.cap op = true)
    (hCareful : ∀ op, ConOp.kernelOp s (.lendMint t slot) = some op → CarefulOp s op) :
    ConSound cfg (conStep s (.lendMint t slot)) := by
  have hRan := hSound.ranOption hEnabled hCareful
  simp only [conStep]
  split
  · rename_i child source hPc
    simp only [ConOp.kernelOp, hPc] at hEnabled hRan ⊢
    refine hRan.setLend t slot ?_
    intro hTrue
    have hRun : s.sys.cap.running t = true := hEnabled _ rfl
    rcases capMint_serial hSound.run.tracked.1 hRun hTrue with ⟨space, hSpace, hSerial⟩
    have hSame := exec_sameTasks s.sys (.mint t slot source conLendRights) rfl
    simp only [ConState.run, ConState.serialIn, CapState.slotOf, hSame.tasks, hSpace]
    exact hSerial
  · exact hSound

/- What `console_unlend` takes back is gone. -/
theorem gone_of_unlend (hRunning : s.sys.cap.running t = true)
    (hLent : (s.lends t slot).lent = true) (hHolds : s.HoldsCopy t slot) :
    Gone (capRevoke s.sys t slot).2.cap (s.lends t slot).copy := by
  rcases hSound.run.tracked with ⟨hTables, hSound', hTracked⟩
  rcases hHolds with ⟨a, hOwns, hSlot, hUsed, hCopy, hTrue⟩
  rcases hTables.capRevoke_cases hRunning with ⟨_, hEmpty⟩ | ⟨d, hOwns', hSlot', hOk, _, hSweep⟩
  · exact absurd (hEmpty hTrue a hOwns hSlot) hUsed
  have hEq : d = a := hOwns'.unique hOwns (hSlot'.trans hSlot.symm)
  subst hEq
  have hOwn := hSound.copies t slot hLent
  rw [hSweep, ← hCopy]
  rw [← hCopy] at hOwn
  exact hTracked.gone_of_sweep hTables hSound' hOk hOwn

theorem unlend
    (hEnabled : ∀ op, ConOp.kernelOp s (.unlend t slot) = some op → enabled s.sys.cap op = true)
    (hCareful : Careful s (.unlend t slot)) : ConSound cfg (conStep s (.unlend t slot)) := by
  have hRan := hSound.ranOption hEnabled hCareful.kernel
  simp only [conStep]
  split
  · rename_i hLent
    simp only [ConOp.kernelOp, hLent, if_true] at hEnabled hRan ⊢
    have hCopy := hSound.copies t slot hLent
    have hSet := hRan.setLend t slot (l := { s.lends t slot with lent := false })
      (fun hFalse => by cases hFalse)
    refine { hSet with gone := fun c hBack => ?_ }
    rcases List.mem_cons.mp hBack with rfl | hOld
    · refine ⟨by omega, ?_⟩
      rcases hCareful.takes t slot rfl hLent with hHolds | hGone
      · exact hSound.gone_of_unlend (hEnabled _ rfl) hLent hHolds
      · exact hGone
    · exact hSet.gone c hOld
  · exact hSound

theorem request {rq : ConRequest}
    (hRunning : s.sys.cap.running t = true) : ConSound cfg (conStep s (.request t slot rq)) := by
  simp only [conStep]
  cases hSent : sentThrough s.sys.cap t slot rq with
  | none => exact hSound
  | some =>
  dsimp only
  split
  · unfold sentThrough at hSent
    split at hSent
    · cases hSent
    rename_i a hLookup
    split at hSent
    · rename_i hObject
      cases hSent
      rcases hSound.run.tracked.1.capLookup_eq_some hRunning hLookup with ⟨hOwns, _, _, _, _, hTyp⟩
      refine { hSound with known := ?_, readers := ?_ }
      · intro m' hMem
        rw [← List.append_assoc] at hMem
        rcases List.mem_append.mp hMem with hOld | hNew
        · exact hSound.known m' hOld
        · cases List.mem_singleton.mp hNew
          exact le_refl _
      intro m' hMem hAlive
      rcases mem_readers.mp hMem with ⟨hIn, hReader⟩
      rcases hIn with hServed | hQueued
      · exact hSound.readers m' (mem_readers.mpr ⟨.inl hServed, hReader⟩) hAlive
      rcases List.mem_append.mp hQueued with hOld | hNew
      · exact hSound.readers m' (mem_readers.mpr ⟨.inr hOld, hReader⟩) hAlive
      cases List.mem_singleton.mp hNew
      refine ⟨a, hOwns, hTyp _ rfl, hObject, ?_⟩
      simp only [ConMsg.reader, conInputPermitted, Bool.and_eq_true, beq_iff_eq] at hReader
      exact hReader.2
    · cases hSent
  · exact hSound

end ConSound

----
-- The Server
----

theorem dispatch_msg (m : ConMsg) : (dispatch m).msg = some m ∧ (dispatch m).out = [] ∧
      ∀ m', (dispatch m).reading = some m' → m' = m ∧ m.reader = true := by
  unfold dispatch ConMsg.reader
  cases hRq : m.rq with
  | getline | getpass | readRaw =>
    dsimp only
    split
    · rename_i hMay
      refine ⟨rfl, rfl, ?_⟩
      rintro m' ⟨⟩
      exact ⟨rfl, hMay⟩
    · exact ⟨rfl, rfl, by rintro m' ⟨⟩⟩
  | inputHeld | other => exact ⟨rfl, rfl, by rintro m' ⟨⟩⟩

theorem ConSound.receive (hSound : ConSound cfg s) : ConSound cfg (conStep s .receive) := by
  simp only [conStep]
  split
  · rename_i m rest hIdle hQueue
    rcases dispatch_msg m with ⟨hMsg, hOut, hReading⟩
    refine { hSound with known := ?_, readers := ?_, reading := ?_, typed := ?_, quiet := ?_ }
    · intro m' hMem
      refine hSound.known m' ?_
      rw [hMsg] at hMem
      rw [hIdle, hQueue]
      exact hMem
    · intro m' hMem hAlive
      rcases mem_readers.mp hMem with ⟨hIn, hReader⟩
      refine hSound.readers m' (mem_readers.mpr ⟨.inr ?_, hReader⟩) hAlive
      rw [hQueue]
      rcases hIn with hServed | hQueued
      · rw [(hReading m' hServed).1]
        exact List.mem_cons_self
      · exact List.mem_cons_of_mem _ hQueued
    · intro m' hServed
      rw [(hReading m' hServed).1]
      exact (hReading m' hServed).2
    · intro m' _ _ b hMem
      rw [hOut, hSound.quiet hIdle] at hMem
      cases hMem
    · intro hNone
      change dispatch m = .idle at hNone
      rw [hNone] at hMsg
      cases hMsg
  · exact hSound

/- Bytes that the server has for its request or reads now. -/
def ConState.Near (s : ConState) (b : Typed) : Prop :=
  b ∈ s.serve.out.reduceOption ∨ b ∈ s.pending ∨ ∃ n, b = s.typed n

/- A step for one request that keeps or reads bytes. -/
theorem ConSound.polled (hSound : ConSound cfg s)
    (hReading : s.serve.reading = some m) {rest : List Typed}
    (hMsg : v.msg = some m) (hRead : v.reading = none ∨ v.reading = some m)
    (hOut : ∀ b ∈ v.out.reduceOption, s.Near b) (hRest : ∀ b ∈ rest, s.Near b) : ConSound cfg
      { s with serve := v, pending := rest } := by
  have hOld := Serve.msg_of_reading hReading
  refine { hSound with known := ?_, readers := ?_, reading := ?_, typed := ?_, quiet := ?_ }
  · intro m' hMem
    refine hSound.known m' ?_
    rw [hOld]
    rw [hMsg] at hMem
    exact hMem
  · intro m' hMem hAlive
    rcases mem_readers.mp hMem with ⟨hIn, hReader⟩
    refine hSound.readers m' (mem_readers.mpr ⟨?_, hReader⟩) hAlive
    rcases hIn with hServed | hQueued
    · left
      rcases hRead with hNone | hSome
      · rw [hNone] at hServed
        cases hServed
      · rw [hReading, ← hSome]
        exact hServed
    · exact .inr hQueued
  · intro m' hServed
    rcases hRead with hNone | hSome
    · rw [hNone] at hServed
      cases hServed
    · rw [hSome] at hServed
      cases hServed
      exact hSound.reading m hReading
  · intro m' hMsg' hAlive b hMem
    rw [hMsg] at hMsg'
    cases hMsg'
    have hNear : s.Near b := (List.mem_append.mp hMem).elim (hOut b) (hRest b)
    rcases hNear with hKept | hKept | ⟨n, rfl⟩
    · exact hSound.typed m hOld hAlive b (List.mem_append_left _ hKept)
    · exact hSound.typed m hOld hAlive b (List.mem_append_right _ hKept)
    · exact hSound.entitled_now hReading hAlive n
  · intro hIdle
    change v = .idle at hIdle
    rw [hIdle] at hMsg
    cases hMsg

theorem fetch_near (s : ConState) (p : Poll) (b : Typed)
    (hMem : b ∈ (s.fetch p).1.toList ++ (s.fetch p).2) : s.Near b := by
  unfold fetch at hMem
  split at hMem
  · rename_i n _
    rcases List.mem_append.mp hMem with hNew | hOld
    · exact .inr (.inr ⟨n, by simpa using hNew⟩)
    · exact .inr (.inl hOld)
  split at hMem
  · rename_i t rest hPending
    refine .inr (.inl ?_)
    rw [hPending]
    simpa using hMem
  split at hMem
  · simp at hMem
  rename_i n tail _
  split at hMem
  · simp at hMem
  refine .inr (.inr ?_)
  rcases List.mem_append.mp hMem with hNew | hTail
  · exact ⟨n, by simpa using hNew⟩
  · rcases List.mem_map.mp hTail with ⟨k, _, rfl⟩
    exact ⟨k, rfl⟩

theorem putCell_bytes {i : Nat} {c : Option Typed} (hMem : b ∈ (putCell out i c).reduceOption) :
    b ∈ out.reduceOption ∨ c = some b := by
  rw [List.reduceOption_mem_iff] at hMem ⊢
  unfold putCell at hMem
  split at hMem
  · rcases List.mem_or_eq_of_mem_set hMem with hOld | hNew
    · exact .inl hOld
    · exact .inr hNew.symm
  · rcases List.mem_append.mp hMem with hOld | hNew
    · exact .inl hOld
    · exact .inr (List.mem_singleton.mp hNew).symm

theorem lineChar_bytes (m : ConMsg) (max len : Nat) (out : List (Option Typed)) (t : Typed) :
    (lineChar m max len out t).msg = some m ∧ ((lineChar m max len out t).reading = none ∨
        (lineChar m max len out t).reading = some m) ∧
      ∀ b ∈ (lineChar m max len out t).out.reduceOption, b ∈ out.reduceOption ∨ b = t := by
  unfold lineChar
  split
  · refine ⟨rfl, .inl rfl, ?_⟩
    intro b hMem
    rcases putCell_bytes hMem with hOld | hNew
    · exact .inl hOld
    · cases hNew
  iterate 3
    split
    · exact ⟨rfl, .inr rfl, fun b hMem => .inl hMem⟩
  refine ⟨rfl, .inr rfl, ?_⟩
  intro b hMem
  rcases putCell_bytes hMem with hOld | hNew
  · exact .inl hOld
  · exact .inr (Option.some.inj hNew).symm

namespace ConSound

variable (hSound : ConSound cfg s)

include hSound

theorem linePoll {len : Nat} {esc : Option Nat} (hServe : s.serve = .line m max len out esc)
    (p : Poll) : ConSound cfg (s.linePoll m max len out esc p) := by
  have hReading : s.serve.reading = some m := by
    rw [hServe]
    rfl
  have hLine : ∀ b ∈ out.reduceOption, s.Near b := by
    intro b hMem
    left
    rw [hServe]
    exact hMem
  have hRest := fun b hMem => fetch_near s p b (List.mem_append_right _ hMem)
  unfold ConState.linePoll
  dsimp only
  split
  · exact hSound.polled hReading rfl (.inr rfl) hLine hRest
  split
  · exact hSound.polled hReading rfl (.inr rfl) hLine hRest
  rename_i t hGot
  rcases lineChar_bytes m max len out t with ⟨hMsg, hRead, hBytes⟩
  refine hSound.polled hReading hMsg hRead (fun b hMem => ?_) hRest
  rcases hBytes b hMem with hOld | rfl
  · exact hLine b hOld
  · exact fetch_near s p b (List.mem_append_left _ (by rw [hGot]; simp))

theorem rawPoll (hServe : s.serve = .raw m max out) (p : Poll) :
    ConSound cfg (s.rawPoll m max out p) := by
  have hReading : s.serve.reading = some m := by
    rw [hServe]
    rfl
  have hOut : ∀ b, some b ∈ out → s.Near b := by
    intro b hMem
    left
    rw [hServe]
    exact List.reduceOption_mem_iff.mpr hMem
  unfold ConState.rawPoll
  split
  · have hRest := fun b hMem => fetch_near s p b (List.mem_append_right _ hMem)
    dsimp only
    cases hGot : (s.fetch p).1 with
    | none => exact hSound.polled hReading rfl (.inr rfl) (by rintro b ⟨⟩) hRest
    | some t =>
      refine hSound.polled hReading rfl (.inr rfl) (fun b hMem => ?_) hRest
      exact fetch_near s p b (List.mem_append_left _ (by rw [hGot]; exact hMem))
  · split
    · rename_i n _
      refine hSound.polled hReading rfl (.inr rfl) (fun b hMem => ?_)
        fun b hMem => .inr (.inl hMem)
      rcases List.mem_append.mp (List.reduceOption_mem_iff.mp hMem) with hOld | hNew
      · exact hOut b hOld
      · exact .inr (.inr ⟨n, by simpa using hNew⟩)
    · refine hSound.polled hReading rfl (.inl rfl) (fun b hMem => ?_)
        fun b hMem => .inr (.inl (List.mem_of_mem_drop hMem))
      rcases List.mem_append.mp (List.reduceOption_mem_iff.mp hMem) with hOld | hNew
      · exact hOut b hOld
      · rcases List.mem_map.mp hNew with ⟨t, hT, ⟨⟩⟩
        exact .inr (.inl (List.mem_of_mem_take hT))

theorem reply {rc : Int} (hServe : s.serve = .replying m rc out) (hTail : s.pending = [])
    (waits : Bool) : ConSound cfg (s.replyTo m out waits) := by
  refine ⟨hSound.run, ?_, ?_, by rintro m' ⟨⟩, by rintro m' ⟨⟩,
    fun _ => hTail, hSound.gone, hSound.copies, ?_⟩
  · intro m' hMem
    exact hSound.known m' (List.mem_append_right _ hMem)
  · intro m' hMem hAlive
    rcases mem_readers.mp hMem with ⟨hIn, hReader⟩
    rcases hIn with ⟨⟨⟩⟩ | hQueued
    exact hSound.readers m' (mem_readers.mpr ⟨.inr hQueued, hReader⟩) hAlive
  intro d hMem
  simp only [replyTo] at hMem
  split at hMem
  · rename_i hReach
    rw [Bool.and_eq_true] at hReach
    rcases List.mem_append.mp hMem with hNew | hOld
    · rcases List.mem_map.mp hNew with ⟨t, hT, rfl⟩
      refine hSound.typed m ?_ hReach.2 t ?_
      · rw [hServe]
        rfl
      · rw [hServe]
        exact List.mem_append_left _ hT
    · exact hSound.delivered d hOld
  · exact hSound.delivered d hMem

theorem step (hEnabled : conEnabled s op = true) (hCareful : Careful s op) :
    ConSound cfg (conStep s op) := by
  unfold conEnabled at hEnabled
  rw [Bool.and_eq_true] at hEnabled
  have hOps : ∀ o, op.kernelOp s = some o → enabled s.sys.cap o = true := by
    intro o hO
    have hFirst := hEnabled.1
    rw [hO] at hFirst
    exact hFirst
  have hRan := hSound.ranOption hOps hCareful.kernel
  cases op with
  | kernel => exact hRan
  | lendEmpty => exact hRan.setLend _ _ (fun hFalse => by cases hFalse)
  | lendMint => exact hSound.lendMint hOps hCareful.kernel
  | lendGrant t slot =>
    simp only [conStep]
    split
    · exact hRan.setLend _ _ (hSound.copies t slot)
    · exact hSound
  | unlend => exact hSound.unlend hOps hCareful
  | request => exact hSound.request hEnabled.2
  | receive => exact hSound.receive
  | poll p =>
    simp only [conStep]
    split
    · rename_i hServe
      exact hSound.linePoll hServe p
    · rename_i hServe
      exact hSound.rawPoll hServe p
    · exact hSound
  | reply waits =>
    simp only [conStep]
    split
    · rename_i hServe
      exact hSound.reply hServe (hCareful.tail waits rfl) waits
    · exact hSound

end ConSound

end Sound

theorem conSound_boot (cfg : BootConfig) (server gen : Nat) :
    ConSound cfg (consoleBoot cfg server gen) where
  run := Lib.Run.refl _
  known := by rintro m ⟨⟩
  readers := by rintro m ⟨⟩
  reading := by rintro m ⟨⟩
  typed := by rintro m ⟨⟩
  quiet := fun _ => rfl
  gone := by rintro c ⟨⟩
  copies := by rintro t slot ⟨⟩
  delivered := by rintro d ⟨⟩

variable {s : ConState}

/- Operations that touch no capability. -/
theorem careful_of_none (hNone : op.kernelOp s = none) (hLend : ∀ t slot, op ≠ .unlend t slot)
    (hTail : ∀ waits, op = .reply waits → s.pending = []) : Careful s op where
  kernel := by
    intro o hSome
    rw [hNone] at hSome
    cases hSome
  takes := fun t slot hIs => absurd hIs (hLend t slot)
  tail := hTail

/- Operations while nobody waits for a key. -/
theorem carefulOp_of_quiet (hReaders : s.readers.isEmpty = true)
    (hQuiet : (exec s.sys o).2 = s.sys ∨ Undisturbed s.sys o)
    (hFresh : ∀ id, o.creates = some id → (s.sys.cap.tasks id).slotGen + 1 < 2 ^ 48) :
    CarefulOp s o where
  quiet := hQuiet
  fresh := hFresh
  keeps := by
    intro m hMem
    rw [List.isEmpty_iff.mp hReaders] at hMem
    cases hMem

theorem careful_of_quiet (hOp : op.kernelOp s = some o) (hLend : ∀ t slot, op ≠ .unlend t slot)
    (hReply : ∀ waits, op ≠ .reply waits) (hReaders : s.readers.isEmpty = true)
    (hQuiet : (exec s.sys o).2 = s.sys ∨ Undisturbed s.sys o)
    (hFresh : ∀ id, o.creates = some id → (s.sys.cap.tasks id).slotGen + 1 < 2 ^ 48) :
    Careful s op where
  kernel := by
    intro o' hSome
    rw [hOp] at hSome
    cases hSome
    exact carefulOp_of_quiet hReaders hQuiet hFresh
  takes := fun t slot hIs => absurd hIs (hLend t slot)
  tail := fun waits hIs => absurd hIs (hReply waits)

/- A slot without the right to revoke is left alone. -/
theorem capRevoke_refused {s : Sys} (space : Nat) (hSpace : (s.cap.tasks cur).cspace = some space)
    (hRoot : space ≠ rootSpace) (hRights : (s.cap.mem ⟨space, slot⟩).rights &&& Right.revoke = 0) :
    (capRevoke s cur slot).2 = s := by
  simp only [capRevoke, cspaceOrRoot, hSpace, Option.getD_some]
  split
  · rfl
  split
  · rfl
  · split
    · rfl
    · rw [if_pos ⟨hRights, hRoot⟩]

theorem undisturbed_revoke {s : Sys} (space : Nat) (hSpace : (s.cap.tasks cur).cspace = some space)
    (hSerial : (s.cap.mem ⟨space, slot⟩).serial ≠ 0) : Undisturbed s (.revoke cur slot) := by
  intro a hOwns hSlot hZero
  refine absurd hZero ?_
  cases hSlot
  cases Option.some.inj (hSpace.symm.trans hOwns.space)
  exact hSerial

def fiveTasks : BootConfig :=
  { smallMachine with
    maxTasks := 5
    someTask := by decide
    fewTasks := by decide }

/- Task 1 gets the keyboard; task 4 is the server. -/
def setUp : List ConOp :=
  [.kernel (.createTask 1 .kernel), .kernel (.createTask 4 .kernel),
    .kernel (.installFromRoot 1 30 23 conEpReq),
    .kernel (.mintToken 1 capslotConsoleIn 30 conLendRights conTokenInput)]

def types (b : Nat) : ConOp := .poll { serial := some b, key := none }

/- A copy is made, task 1 reads a line and takes it back. -/
def lendsOnce : List ConOp :=
  setUp ++ [.lendEmpty 1 2 capslotConsoleIn 40, .lendMint 1 40,
      .request 1 capslotConsoleIn (.getline 0), .receive,
      types 97, types 10, .reply true, .unlend 1 40]

def conRunAll (ops : List ConOp) : ConState := Lib.runAll conStep (consoleBoot fiveTasks 4 1) ops

theorem lendsOnce_run : ConRun (consoleBoot fiveTasks 4 1) (conRunAll lendsOnce) := by
  refine Lib.run_runAll lendsOnce ?_
  unfold lendsOnce setUp
  refine ⟨⟨by decide +kernel, ?_⟩, ⟨by decide +kernel, ?_⟩,
    ⟨by decide +kernel, ?_⟩, ⟨by decide +kernel, ?_⟩,
    ⟨by decide +kernel, ?_⟩, ⟨by decide +kernel, ?_⟩,
    ⟨by decide +kernel, ?_⟩, ⟨by decide +kernel, ?_⟩,
    ⟨by decide +kernel, ?_⟩, ⟨by decide +kernel, ?_⟩,
    ⟨by decide +kernel, ?_⟩, ⟨by decide +kernel, ?_⟩, trivial⟩
  iterate 2
    refine careful_of_quiet rfl nofun nofun (by decide +kernel) (.inr trivial) ?_
    rintro id ⟨⟩
    decide +kernel
  · refine careful_of_quiet rfl nofun nofun (by decide +kernel) (.inr ?_) nofun
    exact spare_of_null 2 (by decide +kernel) (by decide +kernel)
  · refine careful_of_quiet rfl nofun nofun (by decide +kernel) (.inr ⟨?_, nofun⟩) nofun
    exact spare_of_null 2 (by decide +kernel) (by decide +kernel)
  · refine careful_of_quiet rfl nofun nofun (by decide +kernel) (.inl ?_) nofun
    exact capRevoke_refused 2 (by decide +kernel) (by decide) (by decide +kernel)
  · refine careful_of_quiet rfl nofun nofun (by decide +kernel) (.inr ⟨?_, nofun⟩) nofun
    exact spare_of_null 2 (by decide +kernel) (by decide +kernel)
  iterate 4
    exact careful_of_none rfl nofun nofun
  · exact careful_of_none rfl nofun fun _ _ => List.isEmpty_iff.mp (by decide +kernel)
  refine ⟨?_, ?_, nofun⟩
  · rintro o ⟨⟩
    refine carefulOp_of_quiet (by decide +kernel) (.inr ?_) nofun
    exact undisturbed_revoke 2 (by decide +kernel) (by decide +kernel)
  · rintro t slot ⟨⟩ _
    left
    exact ⟨⟨2, 40⟩, ⟨by decide +kernel, by decide +kernel, by decide⟩, rfl,
      by decide +kernel, by decide +kernel, by decide +kernel⟩

/- The slots of a task with the keyboard. -/
def inputSlots (c : CapState) (t : Nat) : List Nat :=
  match (c.tasks t).cspace with
  | none => []
  | some space => (List.range cnodeSize).filter fun slot => decide (IsInput (c.mem ⟨space, slot⟩))

theorem mem_inputSlots {a : Addr} (hOwns : c.Owns t a) (hInput : IsInput (c.mem a)) :
    a.slot ∈ inputSlots c t := by
  simp only [inputSlots, hOwns.space, List.mem_filter, List.mem_range, decide_eq_true_eq]
  exact ⟨hOwns.slot, hInput⟩

theorem not_entitled_of_empty (hNone : inputSlots b.caps t = []) : ¬ Entitled b t gen := by
  rintro ⟨_, a, hOwns, hInput, _⟩
  have hMem := mem_inputSlots hOwns hInput
  rw [hNone] at hMem
  cases hMem

/- What a serial was made from. -/
def sourceOf (log : List Derivation) (x : Nat) : Option Nat :=
  (log.find? fun d => d.made.serial == x).bind fun d => d.source.map Capability.serial

theorem hist_of_sourceOf {log : List Derivation} {x y : Nat}
    (hSource : sourceOf log x = some y) : Hist log x y := by
  rcases Option.bind_eq_some_iff.mp hSource with ⟨d, hFind, hD⟩
  exact ⟨d, List.mem_of_find?_eq_some hFind, by simpa using List.find?_some hFind, hD⟩

/- A byte for a task whose keyboard is an old lender's. -/
def FromOldCopy (d : Delivery) : Prop :=
  ∃ space ∈ (d.typed.caps.tasks d.task).cspace, ∃ c ∈ d.typed.back,
      inputSlots d.typed.caps d.task = [capslotConsoleIn] ∧
      ((sourceOf d.typed.caps.log (d.typed.caps.mem ⟨space, capslotConsoleIn⟩).serial).bind
          (sourceOf d.typed.caps.log)).bind (sourceOf d.typed.caps.log) = some c

instance (d : Delivery) : Decidable (FromOldCopy d) := by
  unfold FromOldCopy
  infer_instance

theorem not_entitled_of_oldCopy {d : Delivery} (hOld : FromOldCopy d) :
    ¬ Entitled d.typed d.task d.gen := by
  rintro ⟨_, a, hOwns, hInput, hFree⟩
  rcases hOld with ⟨space, hSpace, c, hBack, hOnly, hChain⟩
  have hSlot := mem_inputSlots hOwns hInput
  rw [hOnly, List.mem_singleton] at hSlot
  have hEq : a = ⟨space, capslotConsoleIn⟩ := by
    rcases a with ⟨aSpace, aSlot⟩
    cases hSlot
    cases Option.some.inj (hOwns.space.symm.trans hSpace)
    rfl
  subst hEq
  rcases Option.bind_eq_some_iff.mp hChain with ⟨y, hTwo, hThree⟩
  rcases Option.bind_eq_some_iff.mp hTwo with ⟨x, hOne, hNext⟩
  exact hFree c hBack (.inr (Relation.TransGen.head (hist_of_sourceOf hOne)
      (Relation.TransGen.head (hist_of_sourceOf hNext)
        (Relation.TransGen.single (hist_of_sourceOf hThree)))))

/- Task 2, which task 1 may give to. -/
def secondTask : List ConOp := setUp ++ [.kernel (.createTask 2 .kernel), .kernel (.childTcb 1 2)]

/- Task 3, which task 2 may give to. -/
def thirdTask : List ConOp :=
  secondTask ++ [.kernel (.createTask 3 .kernel), .kernel (.childTcb 2 3)]

def lendTo (t child slot : Nat) : List ConOp :=
  [.lendEmpty t child capslotConsoleIn slot, .lendMint t slot, .lendGrant t slot]

/- The borrower's request is being served at `console_unlend`. -/
def servedTooLate : List ConOp :=
  secondTask ++ lendTo 1 2 40 ++ [.request 2 capslotConsoleIn (.getline 0), .receive,
      .unlend 1 40, types 97, types 10, .reply true]

def looks : ConOp := .poll { serial := none, key := none }

/- An arrow key is read by byte, and its rest after a lending. -/
def restOfKey : List ConOp :=
  secondTask ++ [.request 1 capslotConsoleIn (.readRaw 1), .receive, .poll
        { serial := none, key := some (27, [91, 65]) },
      looks, .reply true] ++
    lendTo 1 2 40 ++
    [.request 2 capslotConsoleIn (.readRaw 0), .receive, looks, looks, .reply true]

/- The borrower's own copy is written over before the end. -/
def lentTwice : List ConOp :=
  thirdTask ++ lendTo 1 2 40 ++ lendTo 2 3 40 ++ lendTo 1 2 41 ++
    [.unlend 1 40, .request 3 capslotConsoleIn (.getline 0),
      .receive, types 97, types 10, .reply true]

/- Every step of the list can come in its turn. -/
def ConPossible (ops : List ConOp) : Prop :=
  Lib.AllOk conStep (fun s op => conEnabled s op = true) (consoleBoot fiveTasks 4 1) ops

instance (ops : List ConOp) : Decidable (ConPossible ops) :=
  inferInstanceAs (Decidable (Lib.AllOk _ _ _ ops))

end Horus.Console

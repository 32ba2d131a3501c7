import Horus.Kernel.History
import Horus.Kernel.TaskTable
import Horus.Ipc.State

/-
  The console server (`console_server.c`) and the lending of
  the keyboard (`conlend.c`), over the capability system.

  The capabilities are the kernel's own. The endpoint of the
  server is a queue of requests, each with the sender that the
  kernel recorded and the token of the capability it was sent
  through. A reply goes to the recorded sender.

  Some data are not in the source. A byte keeps the capability
  state in which it was read and the copies that had been
  taken back by then, a lender keeps the serial of the copy it
  made, and the replies that reached a task are kept.
-/

namespace Horus.Console

def conEpReq : Nat := 6
def conTokenInput : Nat := 1
def conLineMax : Nat := 128
def conEscTries : Nat := 64
def capslotConsoleIn : Nat := 13

def conLendRights : Rights := Right.write ||| Right.grant ||| Right.mint ||| Right.revoke

/- A byte that was read from the serial line or the keyboard. -/
structure Typed where
  byte : Nat
  caps : CapState
  back : List Nat

/- The requests; `other` is one that reads nothing. -/
inductive ConRequest where
  | getline (len : Nat)
  | getpass (len : Nat)
  | readRaw (len : Nat)
  | inputHeld
  | other

/- A message on the endpoint, as the kernel queues it. -/
structure ConMsg where
  sender : Nat
  senderGen : Nat
  token : Nat
  rq : ConRequest

/-
  Where the server is. The reply's data may hold bytes after
  the end of the line; a cell without a byte is a 0 that the
  server wrote. `esc` counts the tries of
  `con_swallow_escape`.
-/
inductive Serve where
  | idle
  | line (m : ConMsg) (max len : Nat) (out : List (Option Typed)) (esc : Option Nat)
  | raw (m : ConMsg) (max : Nat) (out : List (Option Typed))
  | replying (m : ConMsg) (rc : Int) (out : List (Option Typed))

/- Where a task is in `console_lend`. -/
inductive LendPc where
  | out
  | minting (child source : Nat)
  | granting (child : Nat)

/- `struct con_lend`, and the serial of the copy. -/
structure ConLend where
  pc : LendPc
  lent : Bool
  copy : Nat

/- A byte of a reply that reached its task. -/
structure Delivery where
  task : Nat
  gen : Nat
  typed : Typed

structure ConState where
  sys : Sys
  server : Nat
  serverGen : Nat
  queue : List ConMsg
  serve : Serve
  pending : List Typed
  lends : Nat → Nat → ConLend
  back : List Nat
  delivered : List Delivery

----
-- Reading
----

/-
  What one look at the hardware finds: a byte on the serial
  line, and a key with the bytes it stands for.
-/
structure Poll where
  serial : Option Nat
  key : Option (Nat × List Nat)

namespace ConState

variable (s : ConState)

def typed (byte : Nat) : Typed :=
  { byte := byte
    caps := s.sys.cap
    back := s.back }

/-
  `con_trygetc`: the serial line first, then what is left of
  the last key, then a new key.
-/
def fetch (p : Poll) : Option Typed × List Typed :=
  match p.serial with
  | some b => (some (s.typed b), s.pending)
  | none =>
  match s.pending with
  | t :: rest => (some t, rest)
  | [] =>
  match p.key with
  | none => (none, [])
  | some (b, tail) => if b = 0 then (none, []) else (some (s.typed b), tail.map s.typed)

end ConState

/- `out[i] = c`, where at least `i` cells are written. -/
def putCell (out : List (Option Typed)) (i : Nat) (c : Option Typed) : List (Option Typed) :=
  if i < out.length then out.set i c else out ++ [c]

/- A turn of the loop of `con_getline`. -/
def lineChar (m : ConMsg) (max len : Nat) (out : List (Option Typed)) (t : Typed) : Serve :=
  if t.byte = 13 ∨ t.byte = 10 then .replying m len (putCell out len none)
  else if t.byte = 8 ∨ t.byte = 0x7F then .line m max (len - 1) out none
  else if t.byte = 0x1B then .line m max len out (some 0)
  else if t.byte < 32 ∨ max ≤ len then .line m max len out none
  else .line m max (len + 1) (putCell out len (some t)) none

/- A try of `con_swallow_escape`; it ends at a final byte. -/
def escChar (tries : Nat) (o : Option Typed) : Option Nat :=
  let next := if tries + 1 < conEscTries then some (tries + 1) else none
  match o with
  | none => next
  | some t =>
    if t.byte = 0x5B ∨ t.byte = 0x4F then next
    else if 0x40 ≤ t.byte ∧ t.byte ≤ 0x7E then none
    else next

namespace ConState

variable (s : ConState)

def linePoll (m : ConMsg) (max len : Nat) (out : List (Option Typed))
    (esc : Option Nat) (p : Poll) : ConState :=
  let got := s.fetch p
  { s with
    pending := got.2
    serve := match esc with
      | some tries => .line m max len out (escChar tries got.1)
      | none =>
        match got.1 with
        | none => .line m max len out none
        | some t => lineChar m max len out t }

/-
  `con_read_raw`: the first byte, then what is on the serial
  line, then what is left of the key.
-/
def rawPoll (m : ConMsg) (max : Nat) (out : List (Option Typed)) (p : Poll) : ConState :=
  match out with
  | [] =>
    let got := s.fetch p
    { s with
      pending := got.2
      serve := match got.1 with
        | none => .raw m max []
        | some t => .raw m max [some t] }
  | _ =>
  match (if out.length < max then p.serial else none) with
  | some b => { s with serve := .raw m max (out ++ [some (s.typed b)]) }
  | none =>
  let room := max - out.length
  let all := out ++ (s.pending.take room).map some
  { s with pending := s.pending.drop room, serve := .replying m all.length all }

end ConState

def sysErrPerm : Int := -1

def conInputPermitted (m : ConMsg) : Bool := m.token == conTokenInput

def lineMax (len : Nat) : Nat := min (if len = 0 then conLineMax - 1 else len) (conLineMax - 1)

/- The dispatch in `_start`, on the operation. -/
def dispatch (m : ConMsg) : Serve :=
  match m.rq with
  | .getline len | .getpass len =>
    if conInputPermitted m then .line m (lineMax len) 0 [] none else .replying m sysErrPerm []
  | .readRaw len =>
    if conInputPermitted m then .raw m (min (if len = 0 then conLineMax - 1 else len) conLineMax) []
    else .replying m sysErrPerm []
  | .inputHeld => .replying m (if conInputPermitted m then 0 else sysErrPerm) []
  | .other => .replying m 0 []

def sentThrough (c : CapState) (t slot : Nat) (rq : ConRequest) : Option ConMsg :=
  match capLookup c t slot (some .endpoint) Right.write with
  | none => none
  | some a =>
  if (c.mem a).object = conEpReq then
    some { sender := t, senderGen := (c.tasks t).slotGen, token := (c.mem a).token, rq := rq }
  else none

----
-- Steps
----

/-
  An operation of a task on its capabilities, a system call of
  `console_lend` or `console_unlend`, a request, or a step of
  the server.
-/
inductive ConOp where
  | kernel (op : Op)
  | lendEmpty (t child source slot : Nat)
  | lendMint (t slot : Nat)
  | lendGrant (t slot : Nat)
  | unlend (t slot : Nat)
  | request (t slot : Nat) (rq : ConRequest)
  | receive
  | poll (p : Poll)
  | reply (waits : Bool)

/- The operation on capabilities that a step makes. -/
def ConOp.kernelOp (s : ConState) : ConOp → Option Op
  | .kernel op => some op
  | .lendEmpty t _ _ slot => some (.revoke t slot)
  | .lendMint t slot =>
    match (s.lends t slot).pc with
    | .minting _ source => some (.mint t slot source conLendRights)
    | _ => none
  | .lendGrant t slot =>
    match (s.lends t slot).pc with
    | .granting child => some (.grant t child capslotConsoleIn slot)
    | _ => none
  | .unlend t slot => if (s.lends t slot).lent then some (.revoke t slot) else none
  | _ => none

/- The incarnation that sent a message is alive. -/
def alive (c : CapState) (t gen : Nat) : Bool := c.running t && (c.tasks t).slotGen == gen

namespace ConState

variable (s : ConState)

def setLend (t slot : Nat) (l : ConLend) : ConState :=
  { s with lends := Function.update s.lends t (Function.update (s.lends t) slot l) }

/- What the operation on capabilities does. -/
def run (o : Option Op) : Bool × ConState :=
  match o with
  | none => (false, s)
  | some op => ((exec s.sys op).1, { s with sys := (exec s.sys op).2 })

/- The serial in a slot of a task. -/
def serialIn (t slot : Nat) : Nat :=
  match s.sys.cap.slotOf t slot with
  | none => 0
  | some a => (s.sys.cap.mem a).serial

/- `reply_to`: only the task that is waiting gets it. -/
def replyTo (m : ConMsg) (out : List (Option Typed)) (waits : Bool) : ConState :=
  { s with
    serve := .idle
    delivered := if waits && alive s.sys.cap m.sender m.senderGen then
        (out.reduceOption.map fun t =>
          { task := m.sender, gen := m.senderGen, typed := t }) ++ s.delivered
      else s.delivered }

end ConState

def conStep (s : ConState) (op : ConOp) : ConState :=
  let done := s.run (op.kernelOp s)
  match op with
  | .kernel _ => done.2
  | .lendEmpty t child source slot =>
    done.2.setLend t slot { pc := .minting child source, lent := false, copy := 0 }
  | .lendMint t slot =>
    match (s.lends t slot).pc with
    | .minting child _ =>
      done.2.setLend t slot
        { pc := if done.1 then .granting child else .out
          lent := done.1
          copy := done.2.serialIn t slot }
    | _ => s
  | .lendGrant t slot =>
    match (s.lends t slot).pc with
    | .granting _ =>
      -- A refusal is followed by `console_unlend`.
      done.2.setLend t slot { s.lends t slot with pc := .out }
    | _ => s
  | .unlend t slot =>
    if (s.lends t slot).lent then
      { done.2.setLend t slot { s.lends t slot with lent := false } with
        back := (s.lends t slot).copy :: s.back }
    else s
  | .request t slot rq =>
    match sentThrough s.sys.cap t slot rq with
    | none => s
    | some m => if s.queue.length < epQueueSlots then { s with queue := s.queue ++ [m] } else s
  | .receive =>
    match s.serve, s.queue with
    | .idle, m :: rest => { s with queue := rest, serve := dispatch m }
    | _, _ => s
  | .poll p =>
    match s.serve with
    | .line m max len out esc => s.linePoll m max len out esc p
    | .raw m max out => s.rawPoll m max out p
    | _ => s
  | .reply waits =>
    match s.serve with
    | .replying m _ out => s.replyTo m out waits
    | _ => s

/- When a step can come. -/
def conEnabled (s : ConState) (op : ConOp) : Bool :=
  (match op.kernelOp s with
    | none => true
    | some o => enabled s.sys.cap o) &&
  match op with
  | .request t _ _ => s.sys.cap.running t
  | .receive => alive s.sys.cap s.server s.serverGen
  | .poll _ => alive s.sys.cap s.server s.serverGen
  | .reply _ => alive s.sys.cap s.server s.serverGen
  | _ => true

/- The server is the incarnation `gen` of task `server`. -/
def consoleBoot (cfg : BootConfig) (server gen : Nat) : ConState :=
  { sys := boot cfg
    server := server
    serverGen := gen
    queue := []
    serve := .idle
    pending := []
    lends := fun _ _ => { pc := .out, lent := false, copy := 0 }
    back := []
    delivered := [] }

end Horus.Console

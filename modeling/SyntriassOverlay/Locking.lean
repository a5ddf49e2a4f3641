import SyntriassOverlay.Hooks
import SyntriassOverlay.Lib.Ownership

/-!
# Locks (interceptor.rs:449-504, 598-780, 1293-1311, fd_state.rs:346-411, crypto/mod.rs:359-435)

The hooks of `Hooks` with their critical sections taken apart: what a thread locks, in which
order, and what it does meanwhile. The library is preloaded, so its own reads of the
configuration files and its messages on stderr go through the interposed `read`, `close` and
`write`; a thread can be inside a hook that it has called from a hook. Shared with the other
threads are the registry and its mutex, the mutex of every session, the lock of stderr, the
`RwLock` of the configuration, and the `Lazy` cells of the last and the first: a cell is
initialised by the first thread that needs it, others wait until that is done. The cells of
`REAL`, `INTERPOSITION_ENABLED` and `RUNTIME_METRICS` are left out: what initialises them takes
none of these locks and calls no hook.

Messages on stderr are taken to go to something that is not a socket.
-/

namespace SyntriassOverlay
namespace Locking
open Crypto Resumption Ownership

/-! ### What can be held -/

inductive Mutex where
  | session (h : Handle)
  | stderr
  | registry
  deriving DecidableEq

inductive Cell where
  | config
  | registry
  deriving DecidableEq

/-- A mutex, the right to initialise a cell, or a share of the `RwLock`: a reader has one of
them, a writer all. -/
inductive Token where
  | mutex (x : Mutex)
  | cell (c : Cell)
  | share (n : ℕ)
  deriving DecidableEq

/-- The order in which a thread takes them. -/
def Token.rank : Token → ℕ
  | .mutex (.session _) => 0
  | .mutex .stderr => 1
  | .cell .config => 2
  | .cell .registry => 3
  | .mutex .registry => 4
  | .share _ => 5

def shares : Set Token := Set.range Token.share

/-- `hook` is a step of a hook as `Hooks` has it, `nested` says whether the hook is called by
the library itself; `release` ends the call of a session that is the event `e` there. -/
inductive LockOp where
  | lock (x : Mutex)
  | unlock (x : Mutex)
  | tryLock (h : Handle)
  | release (nested : Bool) (h : Handle) (e : Ev HookResp)
  | force (c : Cell)
  | ready (c : Cell)
  | readLock
  | readUnlock (n : ℕ)
  | writeLock
  | writeUnlock
  | hook (nested : Bool) (o : HookOp)
  | sessionState (h : Handle)
  | onSession (h : Handle) (o : Op)
  | handles
  | openFile
  | spawn
  | choice

/-- `force` is answered whether the caller has to initialise the cell. -/
@[reducible] def LockResp : LockOp → Type
  | .lock _ | .unlock _ | .release _ _ _ | .ready _ => Unit
  | .readUnlock _ | .writeLock | .writeUnlock => Unit
  | .tryLock _ | .force _ | .spawn | .choice => Bool
  | .readLock => ℕ
  | .hook _ o => HookResp o
  | .sessionState _ => FdState
  | .onSession _ o => Resp o
  | .handles => List Handle
  | .openFile => Option Fd

abbrev LockTr := Trace LockResp
abbrev LockAct (α : Type) := Act LockResp Unit α

def locks : Discipline LockResp Token where
  uses
    | .unlock x => {.mutex x}
    | .release _ h _ => {.mutex (.session h)}
    | .ready c => {.cell c}
    | .readUnlock n => {.share n}
    | .writeUnlock => shares
    | _ => ∅
  drops
    | .unlock x => {.mutex x}
    | .release _ h _ => {.mutex (.session h)}
    | .ready c => {.cell c}
    | .readUnlock n => {.share n}
    | .writeUnlock => shares
    | _ => ∅
  gains
    | ⟨.lock x, _⟩ => {.mutex x}
    | ⟨.tryLock h, true⟩ => {.mutex (.session h)}
    | ⟨.force c, true⟩ => {.cell c}
    | ⟨.readLock, n⟩ => {.share n}
    | ⟨.writeLock, _⟩ => shares
    | _ => ∅
  drops_used _ := subset_rfl

/-! ### The functions with their locks -/

def stderrFd : Fd := 2

/-- The calls that read the cached configuration. -/
def readsConfig : Op → Bool
  | .resolvePolicy | .resolveIdentity => true
  | _ => false

/-- The text of `record_downgrade_attack`. -/
def message : Op → Option String
  | .note (.downgradeAttack detail) =>
    some ("syntriass: SECURITY ALERT: downgrade attempt detected: " ++ detail ++
      " (failing closed)")
  | _ => none

/-- A small buffer, as `read_to_string` fills it again and again. -/
def fileBuffer : InBuf := .bytes (List.replicate 32 0)

def withLock {α : Type} (x : Mutex) (m : LockAct α) : LockAct α := do
  perform (LockOp.lock x)
  let a ← m
  perform (LockOp.unlock x)
  pure a

section
-- the interposed functions as the library itself calls them
variable (fuel : ℕ) (io : HookCall → LockAct HookRet)

/-- The same call until the standard library is through with its text or file. -/
def repeatedly (c : HookCall) : LockAct Unit :=
  iter (fun (_ : Unit) => do
    let _ ← io c
    if ← perform LockOp.choice then pure (.inl ()) else pure (.inr ())) fuel ()

def eprintln (text : String) : LockAct Unit :=
  withLock .stderr (repeatedly fuel io (.write stderrFd (.bytes (ascii text))))

/-- The cell `c`, which `init` initialises. -/
def force (c : Cell) (init : LockAct Unit) : LockAct Unit := do
  if ← perform (LockOp.force c) then do
    init
    perform (LockOp.ready c)
  else pure ()

def startConfigHotReloader : LockAct Unit := do
  if ← perform LockOp.spawn then pure ()
  else eprintln fuel io "syntriass: failed to start config reloader"

/-- The map operations of `body` under the lock of the registry. -/
def lockRegistry {α : Type} (body : LockAct α) : LockAct α := do
  force .registry (startConfigHotReloader fuel io)
  withLock .registry body

def readToString : LockAct Unit := do
  match ← perform LockOp.openFile with
  | none => pure ()
  | some fd => do
    repeatedly fuel io (.read fd fileBuffer)
    let _ ← io (.close fd)
    pure ()

/-- The identity file, and the policy file unless the environment has the suite. -/
def loadRuntimeConfig : LockAct Unit := do
  readToString fuel io
  if ← perform LockOp.choice then pure () else readToString fuel io

/-- `RUNTIME_CONFIG.read()`, and `body` with the guard. -/
def readConfig {α : Type} (body : LockAct α) : LockAct α := do
  force .config (loadRuntimeConfig fuel io)
  let n ← perform LockOp.readLock
  let a ← body
  perform (LockOp.readUnlock n)
  pure a

def reloadRuntimeConfig : LockAct Unit := do
  loadRuntimeConfig fuel io
  force .config (loadRuntimeConfig fuel io)
  perform LockOp.writeLock
  perform LockOp.writeUnlock

def report : Option String → LockAct Unit
  | some text => eprintln fuel io text
  | none => pure ()

/-- The call `o` of a session or of a state that is built, with the locks behind it. -/
def guarded (o : Op) (answer : LockAct (Resp o)) : LockAct (Resp o) :=
  if readsConfig o then readConfig fuel io answer
  else do
    report fuel io (message o)
    answer

/-- A state is built. -/
def asking {α : Type} (nested : Bool) : Prog Resp Unit α → Prog LockResp Unit α
  | .done s a => .done s a
  | .call s o k =>
    (guarded fuel io o (perform (LockOp.hook nested (.query o))) s).bind fun r _ =>
      asking nested (k r)
  | .cut s => .cut s

def ask {α : Type} (nested : Bool) (m : Act Resp Unit α) : LockAct α :=
  fun s => asking fuel io nested (m s)

/-- A call of the session `h`. -/
def inSession {α : Type} (h : Handle) : Prog Resp FdState α → Prog LockResp Unit α
  | .done _ a => .done () a
  | .call _ o k =>
    (guarded fuel io o (perform (LockOp.onSession h o)) ()).bind fun r _ => inSession h (k r)
  | .cut _ => .cut ()

/-- `overlay_send` or `overlay_recv` from the lock of the session on; `o` is the call as the
hook makes it. -/
def serve (nested : Bool) (h : Handle) (o : HookOp) (m : FdAct (HookResp o)) :
    LockAct (HookResp o) := do
  perform (LockOp.lock (.session h))
  let st ← perform (LockOp.sessionState h)
  let a ← (fun _ => inSession fuel io h (m st) : LockAct (HookResp o))
  perform (LockOp.release nested h ⟨o, a⟩)
  pure a

variable (P : Primitives)

def hookOp (nested : Bool) : (o : HookOp) → LockAct (HookResp o)
  | .containsKey fd => lockRegistry fuel io (perform (LockOp.hook nested (.containsKey fd)))
  | .lookup fd => lockRegistry fuel io (perform (LockOp.hook nested (.lookup fd)))
  | .insert fd st => lockRegistry fuel io (perform (LockOp.hook nested (.insert fd st)))
  | .orInsert fd st => lockRegistry fuel io (perform (LockOp.hook nested (.orInsert fd st)))
  | .remove fd => lockRegistry fuel io (perform (LockOp.hook nested (.remove fd)))
  | .query o => guarded fuel io o (perform (LockOp.hook nested (.query o)))
  | .overlaySend h plaintext flags n =>
    serve fuel io nested h (.overlaySend h plaintext flags n) (overlaySend P plaintext flags n)
  | .overlayRecv h len hlen flags n =>
    serve fuel io nested h (.overlayRecv h len hlen flags n) (overlayRecv P len flags n)
  | .soType fd => perform (LockOp.hook nested (.soType fd))
  | .blockedBypassAttempt => perform (LockOp.hook nested .blockedBypassAttempt)
  | .real c => perform (LockOp.hook nested (.real c))

/-- A part of a hook in which every call has a critical section of its own. -/
def lowered {α : Type} (nested : Bool) : Prog HookResp Unit α → Prog LockResp Unit α
  | .done s a => .done s a
  | .call s o k => (hookOp fuel io P nested o s).bind fun r _ => lowered nested (k r)
  | .cut s => .cut s

def lower {α : Type} (nested : Bool) (m : HookAct α) : LockAct α :=
  fun s => lowered fuel io P nested (m s)

/-- The entry is looked up, and if it is vacant filled, in one critical section. -/
def ensureTracked (nested : Bool) (fd : Fd) : LockAct Bool := do
  if ← lockRegistry fuel io (perform (LockOp.hook nested (.containsKey fd))) then pure true
  else if (← perform (LockOp.hook nested (.soType fd))) ≠ some sockStream then pure false
  else
    let suite ← ask fuel io nested failedPolicySuite
    lockRegistry fuel io do
      if ← perform (LockOp.hook nested (.containsKey fd)) then pure ()
      else do
        let st ← ask fuel io nested (newResponderState suite)
        perform (LockOp.hook nested (.orInsert fd st))
    pure true

def connect (nested : Bool) (fd : Fd) : LockAct HookRet := do
  let res ← perform (LockOp.hook nested (.real (.connect fd)))
  if res.Starts then do
    let st ← ask fuel io nested (newInitiatorState P)
    lockRegistry fuel io (perform (LockOp.hook nested (.insert fd st)))
    pure (.real res)
  else pure (.real res)

end

/-- The arguments that a tracking hook refuses before it looks at the descriptor. -/
def refusal : HookCall → Option Errno
  | .writev _ _ iovcnt | .readv _ _ iovcnt => if iovcnt < 0 then some EINVAL else none
  | .sendmsg _ none _ | .recvmsg _ none _ => some EFAULT
  | _ => none

def sendSlice (fuel : ℕ) (fd : Fd) (buf : InBuf) (flags : Flags) : HookAct HookRet :=
  match inputSlice buf with
  | .ok plaintext => hookSend fuel fd plaintext flags
  | .error e => pure (.error e)

/-- What a tracking hook does on a tracked descriptor. -/
def served (fuel : ℕ) (c : HookCall) : HookAct HookRet :=
  match c with
  | .send fd buf flags => sendSlice fuel fd buf flags
  | .recv fd buf flags => do
      let r ← hookRecv fuel fd (buf matches .null _) buf.length flags
      pure (received r)
  | .write fd buf => sendSlice fuel fd buf 0
  | .read fd buf => do
      let r ← hookRecv fuel fd (buf matches .null _) buf.length 0
      pure (received r)
  | .writev fd iov iovcnt => overlayWriteIov fuel fd iov iovcnt.toNat 0
  | .readv fd iov iovcnt => overlayReadIov fuel fd iov iovcnt.toNat 0
  | .sendmsg fd (some (iov, iovlen)) flags => overlayWriteIov fuel fd iov iovlen flags
  | .recvmsg fd (some (iov, iovlen)) flags => overlayReadIov fuel fd iov iovlen flags
  | c => forward c

section
variable (P : Primitives) (fuel : ℕ) (interpositionEnabled : Bool)

def trackingHook (io : HookCall → LockAct HookRet) (nested : Bool) (c : HookCall) :
    LockAct HookRet :=
  match refusal c with
  | some e => pure (.error e)
  | none => do
    if ← ensureTracked fuel io nested c.fd then lower fuel io P nested (served fuel c)
    else lower fuel io P nested (forward c)

/-- A hook with its locks. -/
def hookCall (io : HookCall → LockAct HookRet) (nested : Bool) (c : HookCall) : LockAct HookRet :=
  if !interpositionEnabled then lower fuel io P nested (forward c)
  else if c.tracks then trackingHook P fuel io nested c
  else match c with
    | .connect fd => connect fuel io P nested fd
    | c => lower fuel io P nested (c.body P fuel)

variable {P fuel} in
theorem hookCall_tracking {io : HookCall → LockAct HookRet} {nested : Bool} {c : HookCall}
    (h : c.tracks = true) :
    hookCall P fuel true io nested c = trackingHook P fuel io nested c := by
  cases c with
  | connect | sendto | sendmmsg | sendfile | sendfile64 | splice | close => cases h
  | _ => rfl

variable {P fuel} in
theorem hookCall_other {io : HookCall → LockAct HookRet} {nested : Bool} {c : HookCall}
    (h : c.tracks = false) (hc : ∀ fd, c ≠ .connect fd) :
    hookCall P fuel true io nested c = lower fuel io P nested (c.body P fuel) := by
  cases c with
  | connect fd => exact absurd rfl (hc fd)
  | sendto | sendmmsg | sendfile | sendfile64 | splice | close => rfl
  | _ => cases h

theorem hookCall_kinds (c : HookCall) :
    c.tracks = true ∨ (∃ fd, c = .connect fd) ∨ c.tracks = false ∧ ∀ fd, c ≠ .connect fd := by
  cases c with
  | connect fd => exact .inr (.inl ⟨fd, rfl⟩)
  | sendto | sendmmsg | sendfile | sendfile64 | splice | close =>
    exact .inr (.inr ⟨rfl, fun fd h => by cases h⟩)
  | _ => exact .inl rfl

/-- The hooks as the library calls them itself, up to a depth. -/
def interposed : ℕ → HookCall → LockAct HookRet
  | 0, _ => fun s => .cut s
  | depth + 1, c => hookCall P fuel interpositionEnabled (interposed depth) true c

end

/-! ### Threads -/

inductive ThreadCall where
  | hook (c : HookCall)
  | configChange (epoch : ℕ)
  | watcherUnavailable

section
variable (P : Primitives) (fuel : ℕ) (io : HookCall → LockAct HookRet)

/-- A session that is in use is left alone. -/
def retire (epoch : ℕ) (h : Handle) : LockAct Unit := do
  if ← perform (LockOp.tryLock h) then do
    let st ← perform (LockOp.sessionState h)
    (fun _ => inSession fuel io h (retireIdleSession epoch st) : LockAct Unit)
    perform (LockOp.unlock (.session h))
  else pure ()

/-- The loop of `retire_idle_sessions_for_new_config`. -/
def retireAll (epoch : ℕ) : List Handle → LockAct Unit
  | [] => pure ()
  | h :: rest => do
    retire fuel io epoch h
    retireAll epoch rest

def retireIdleSessionsForNewConfig (epoch : ℕ) : LockAct Unit := do
  let states ← lockRegistry fuel io (perform LockOp.handles)
  retireAll fuel io epoch states

/-- `advance_config_epoch` has given `epoch`. -/
def handleConfigChange (epoch : ℕ) : LockAct Unit := do
  reloadRuntimeConfig fuel io
  retireIdleSessionsForNewConfig fuel io epoch
  eprintln fuel io ("syntriass: reloaded cryptographic config epoch " ++ toString epoch)

def ThreadCall.run (interpositionEnabled : Bool) (depth : ℕ) : ThreadCall → LockAct Unit
  | .hook c => do
    let _ ← hookCall P fuel interpositionEnabled
      (interposed P fuel interpositionEnabled depth) false c
    pure ()
  | .configChange epoch =>
    handleConfigChange fuel (interposed P fuel interpositionEnabled depth) epoch
  | .watcherUnavailable =>
    eprintln fuel (interposed P fuel interpositionEnabled depth)
      "syntriass: config watcher unavailable"

end

/-! ### What the answers keep to -/

/-- The thread has found the cell initialised, or has initialised it. -/
def Forced (t : LockTr) (c : Cell) : Prop :=
  (⟨.force c, false⟩ : Ev LockResp) ∈ t ∨ (⟨.ready c, ()⟩ : Ev LockResp) ∈ t

/-- A cell is initialised once. There is no entry and no stream socket behind stderr, nor
behind a configuration file that is read before there is a configuration. -/
def Credible (t : LockTr) : Ev LockResp → Prop
  | ⟨.force c, r⟩ => r = true → ¬ Forced t c
  | ⟨.spawn, r⟩ => r = true
  | ⟨.hook _ (.containsKey fd), r⟩ =>
    r = true → fd ≠ stderrFd ∧ Token.cell .config ∉ locks.held ∅ t
  | ⟨.hook _ (.soType fd), r⟩ =>
    r = some sockStream → fd ≠ stderrFd ∧ Token.cell .config ∉ locks.held ∅ t
  | ⟨.hook _ (.real (.connect fd)), r⟩ => r.Starts → fd ≠ stderrFd
  | _ => True

structure Possible (t : LockTr) : Prop where
  fresh : locks.Fresh ∅ t
  credible : ∀ u e, u ++ [e] <+: t → Credible u e

theorem Possible.nil : Possible [] := by
  refine ⟨trivial, fun u e h => ?_⟩
  simp at h

theorem possible_concat {t : LockTr} {e : Ev LockResp} :
    Possible (t ++ [e]) ↔ Possible t ∧
      Disjoint (locks.gains e) (locks.held ∅ t \ locks.drops e.op) ∧ Credible t e := by
  constructor
  · intro h
    obtain ⟨hfresh, hnew, -⟩ := Discipline.fresh_append.mp h.fresh
    exact ⟨⟨hfresh, fun u e' hu => h.credible u e' (hu.trans (List.prefix_append _ _))⟩, hnew,
      h.credible t e List.prefix_rfl⟩
  · rintro ⟨h, hnew, he⟩
    refine ⟨Discipline.fresh_append.mpr ⟨h.fresh, hnew, trivial⟩, fun u e' hu => ?_⟩
    rcases List.prefix_concat_iff.mp hu with heq | hu
    · obtain ⟨rfl, he'⟩ := List.append_inj' heq rfl
      cases he'
      exact he
    · exact h.credible u e' hu

theorem Possible.mono {t t' : LockTr} (h : Possible t') (ht : t <+: t') : Possible t := by
  obtain ⟨u, rfl⟩ := ht
  exact ⟨(Discipline.fresh_append.mp h.fresh).1,
    fun v e hv => h.credible v e (hv.trans (List.prefix_append _ _))⟩

theorem Forced.mono {t t' : LockTr} {c : Cell} (h : Forced t c) (ht : t <+: t') : Forced t' c :=
  h.imp (fun h => ht.subset h) fun h => ht.subset h

/-! ### The order of locks -/

/-- All of `H` comes before `n`. -/
def Below (n : ℕ) (H : Set Token) : Prop := ∀ x ∈ H, x.rank < n

theorem Below.mono {n n' : ℕ} {H : Set Token} (h : Below n H) (hn : n ≤ n') : Below n' H :=
  fun x hx => (h x hx).trans_le hn

theorem Below.insert {n : ℕ} {H : Set Token} (h : Below n H) {x : Token} (hx : x.rank < n) :
    Below n (H ∪ {x}) := by
  rintro y (hy | rfl)
  · exact h y hy
  · exact hx

theorem Below.not_mem {H : Set Token} {x : Token} (h : Below x.rank H) : x ∉ H :=
  fun hx => absurd (h x hx) (lt_irrefl _)

theorem imp_of_eq_false {b : Bool} {p : Prop} (h : b = false) : b = true → p :=
  fun hb => absurd (h.symm.trans hb) Bool.false_ne_true

theorem below_empty (n : ℕ) : Below n ∅ := fun _ hx => hx.elim

/-- The calls that can wait for something outside of the process. -/
def LockOp.blocking : LockOp → Bool
  | .hook _ (.real _) | .onSession _ (.send _ _) | .onSession _ (.recv _) | .openFile => true
  | _ => false

/-- What may be held at a call, and what has happened before an entry is made. -/
def Ordered (t : LockTr) : LockOp → Prop
  | .lock x => Below (Token.mutex x).rank (locks.held ∅ t)
  | .force c => Below (Token.cell c).rank (locks.held ∅ t) ∨ Forced t c
  | .readLock => Below (Token.share 0).rank (locks.held ∅ t)
  | .writeLock => Below (Token.share 0).rank (locks.held ∅ t)
  | .hook _ (.insert fd _) => fd ≠ stderrFd ∧ Forced t .config
  | .hook _ (.orInsert fd _) => fd ≠ stderrFd ∧ Forced t .config
  | o => o.blocking = true → Below (Token.cell .registry).rank (locks.held ∅ t)

def lockInv : Obligation LockResp Unit where
  call t _ o := Possible t → locks.uses o ⊆ locks.held ∅ t ∧ Ordered t o
  cut _ _ := True

/-- `H` is held, if the answers are possible. -/
def Has (H : Set Token) (t : LockTr) : Prop := Possible t → locks.held ∅ t = H

/-- The action keeps to the order when it is run with `H`, and gives back what it takes. -/
def Calm {α : Type} (H : Set Token) (m : LockAct α) : Prop :=
  ∀ t, Has H t → Safe lockInv (fun t' _ _ => t <+: t' ∧ Has H t') (m ()) t

section
variable {α β : Type} {H : Set Token} {t : LockTr} {Q : LockTr → Unit → α → Prop}

theorem Has.step (ht : Has H t) (e : Ev LockResp) : Has (locks.after H e) (t ++ [e]) := by
  intro hp
  rw [Discipline.held_append, ht (possible_concat.mp hp).1]
  rfl

theorem safe_step {o : LockOp} {k : LockResp o → Prog LockResp Unit α} (ht : Has H t)
    (ho : locks.held ∅ t = H → locks.uses o ⊆ H ∧ Ordered t o)
    (hk : ∀ r, Has (locks.after H ⟨o, r⟩) (t ++ [⟨o, r⟩]) →
      Safe lockInv Q (k r) (t ++ [⟨o, r⟩])) : Safe lockInv Q (.call () o k) t := by
  refine ⟨fun hp => ?_, fun r => hk r (ht.step _)⟩
  rw [ht hp]
  exact ho (ht hp)

theorem safe_perform {o : LockOp} {f : LockResp o → LockAct α} (ht : Has H t)
    (ho : locks.held ∅ t = H → locks.uses o ⊆ H ∧ Ordered t o)
    (hf : ∀ r, Has (locks.after H ⟨o, r⟩) (t ++ [⟨o, r⟩]) →
      Safe lockInv Q (f r ()) (t ++ [⟨o, r⟩])) : Safe lockInv Q ((perform o >>= f) ()) t :=
  safe_step ht ho hf

theorem safe_impossible (h : ¬ Possible t) (hQ : ∀ t' a, t <+: t' → ¬ Possible t' → Q t' () a)
    (p : Prog LockResp Unit α) : Safe lockInv Q p t := by
  have hnot : ∀ u, ¬ Possible (t ++ u) := fun u hp => h (hp.mono (List.prefix_append _ _))
  exact safe_of_extends (fun u _ _ hp => absurd hp (hnot u)) (fun _ _ => trivial)
    (fun u _ a => hQ _ a (List.prefix_append _ _) (hnot u)) p

theorem Has.of_impossible (h : ¬ Possible t) : Has H t := fun hp => absurd hp h

theorem Calm.bind_safe {m : LockAct β} {f : β → LockAct α} (hm : Calm H m) (ht : Has H t)
    (hf : ∀ t' b, t <+: t' → Has H t' → Safe lockInv Q (f b ()) t') :
    Safe lockInv Q ((m >>= f) ()) t :=
  safe_bind (safe_mono (fun t' _ b h => hf t' b h.1 h.2) (hm t ht))

theorem calm_pure (a : α) : Calm H (pure a : LockAct α) := fun _ ht => ⟨List.prefix_rfl, ht⟩

theorem calm_bind {m : LockAct β} {f : β → LockAct α} (hm : Calm H m) (hf : ∀ b, Calm H (f b)) :
    Calm H (m >>= f) := by
  intro t ht
  refine hm.bind_safe ht fun t' b hpre ht' => safe_mono ?_ (hf b t' ht')
  intro t'' _ _ h
  exact ⟨hpre.trans h.1, h.2⟩

theorem calm_iter {body : β → LockAct (β ⊕ α)} (hbody : ∀ b, Calm H (body b)) (n : ℕ) (b : β) :
    Calm H (iter body n b) := by
  induction n generalizing b with
  | zero => exact fun _ _ => trivial
  | succ n ih =>
    apply calm_bind (hbody b)
    intro next
    cases next with
    | inl b' => exact ih b'
    | inr a => exact calm_pure a

/-- A call that takes nothing and gives nothing back. -/
theorem calm_perform {o : LockOp} (huses : locks.uses o = ∅) (hgains : ∀ r, locks.gains ⟨o, r⟩ = ∅)
    (hord : ∀ t, locks.held ∅ t = H → Ordered t o) :
    Calm H (perform o : LockAct (LockResp o)) := by
  intro t ht
  refine safe_step ht (fun hH => ⟨by simp [huses], hord t hH⟩) fun r ht' => ?_
  have hdrops : locks.drops o = ∅ := Set.subset_empty_iff.mp (huses ▸ locks.drops_used o)
  refine ⟨List.prefix_append _ _, ?_⟩
  simpa [Discipline.after, hgains, hdrops] using ht'

end

/-! ### Every function keeps to the order -/

/-- The calls the library makes of its own hooks: messages, and the configuration files, which
are read with nothing else held or while the cell of the configuration is initialised. -/
def Own (H : Set Token) : HookCall → Prop
  | .write fd _ => fd = stderrFd
  | .read _ _ => H = ∅ ∨ Token.cell .config ∈ H
  | .close _ => True
  | _ => False

def OwnCalm (io : HookCall → LockAct HookRet) : Prop :=
  ∀ H c, Below (Token.cell .registry).rank H → Own H c → Calm H (io c)

/-- Calls that run with a share of the configuration, or without. -/
structure Answer (H : Set Token) (o : Op) (answer : LockAct (Resp o)) : Prop where
  plain : Calm H answer
  share : readsConfig o = true → ∀ n, Calm (H ∪ {.share n}) answer

section
variable {α β : Type} {H : Set Token} {t : LockTr} {fuel : ℕ} {io : HookCall → LockAct HookRet}

/-- What is known of a result stays known. -/
def Lasting (R : LockTr → α → Prop) : Prop := ∀ t t' a, t <+: t' → R t a → R t' a

/-- The rule for what is done with a lock. -/
theorem withLock_safe {x : Mutex} {m : LockAct α} {R : LockTr → α → Prop} (hR : Lasting R)
    (hx : Below (Token.mutex x).rank H) (ht : Has H t)
    (hm : ∀ t', t <+: t' → Has (H ∪ {.mutex x}) t' →
      Safe lockInv (fun t'' _ a => t' <+: t'' ∧ Has (H ∪ {.mutex x}) t'' ∧ R t'' a) (m ()) t') :
    Safe lockInv (fun t' _ a => t <+: t' ∧ Has H t' ∧ R t' a) (withLock x m ()) t := by
  refine safe_perform ht (fun hH => ⟨Set.empty_subset _, by rwa [Ordered, hH]⟩) fun _ ht₁ => ?_
  have htaken : locks.after H ⟨.lock x, ()⟩ = H ∪ {.mutex x} := by simp [Discipline.after, locks]
  rw [htaken] at ht₁
  refine safe_bind (safe_mono ?_ (hm _ (List.prefix_append _ _) ht₁))
  rintro t₂ _ a ⟨hpre, ht₂, ha⟩
  refine safe_perform ht₂ (fun _ => ⟨by simp [locks], imp_of_eq_false rfl⟩) fun _ ht₃ => ?_
  have hgiven : locks.after (H ∪ {.mutex x}) ⟨.unlock x, ()⟩ = H := by
    simp [Discipline.after, locks, Set.sdiff_singleton_eq_self hx.not_mem]
  rw [hgiven] at ht₃
  exact ⟨(List.prefix_append _ _).trans (hpre.trans (List.prefix_append _ _)), ht₃,
    hR _ _ a (List.prefix_append _ _) ha⟩

theorem withLock_calm {x : Mutex} {m : LockAct α} (hx : Below (Token.mutex x).rank H)
    (hm : Calm (H ∪ {.mutex x}) m) : Calm H (withLock x m) := by
  intro t ht
  refine safe_mono ?_ (withLock_safe (R := fun _ _ => True) (fun _ _ _ _ h => h) hx ht
    fun t' _ ht' => safe_mono (fun _ _ _ h => ⟨h.1, h.2, trivial⟩) (hm t' ht'))
  exact fun _ _ _ h => ⟨h.1, h.2.1⟩

theorem choice_calm : Calm H (perform LockOp.choice : LockAct Bool) :=
  calm_perform rfl (fun _ => rfl) fun _ _ => imp_of_eq_false rfl

theorem repeatedly_calm {c : HookCall} (hc : Calm H (io c)) : Calm H (repeatedly fuel io c) := by
  apply calm_iter
  intro _
  apply calm_bind hc
  intro _
  apply calm_bind choice_calm
  intro b
  cases b with
  | false => exact calm_pure _
  | true => exact calm_pure _

theorem eprintln_calm (hio : OwnCalm io) (hH : Below (Token.mutex .stderr).rank H) (text : String) :
    Calm H (eprintln fuel io text) := by
  apply withLock_calm hH
  apply repeatedly_calm
  apply hio
  · exact (hH.mono (by decide)).insert (by decide)
  · rfl

/-- The rule for a cell. Only the first thread comes to initialise it. -/
theorem force_safe {c : Cell} {init : LockAct Unit} (ht : Has H t)
    (hc : Below (Token.cell c).rank H ∨ Forced t c)
    (hinit : Below (Token.cell c).rank H → Calm (H ∪ {.cell c}) init) :
    Safe lockInv (fun t' _ _ => t <+: t' ∧ Has H t' ∧ Forced t' c) (force c init ()) t := by
  refine safe_perform ht (fun hH => ⟨Set.empty_subset _, by rwa [Ordered, hH]⟩) fun first ht₁ => ?_
  cases first with
  | false =>
    have hsame : locks.after H ⟨.force c, false⟩ = H := by simp [Discipline.after, locks]
    rw [hsame] at ht₁
    exact ⟨List.prefix_append _ _, ht₁, .inl (by simp)⟩
  | true =>
    rcases hc with hbelow | hforced
    · have htaken : locks.after H ⟨.force c, true⟩ = H ∪ {.cell c} := by
        simp [Discipline.after, locks]
      rw [htaken] at ht₁
      refine (hinit hbelow).bind_safe ht₁ fun t₂ _ hpre ht₂ => ?_
      refine safe_step ht₂ (fun _ => ⟨by simp [locks], imp_of_eq_false rfl⟩) fun _ ht₃ => ?_
      have hgiven : locks.after (H ∪ {.cell c}) ⟨.ready c, ()⟩ = H := by
        simp [Discipline.after, locks, Set.sdiff_singleton_eq_self hbelow.not_mem]
      rw [hgiven] at ht₃
      exact ⟨(List.prefix_append _ _).trans (hpre.trans (List.prefix_append _ _)), ht₃,
        .inr (by simp)⟩
    · have hnot : ¬ Possible (t ++ [⟨.force c, true⟩]) :=
        fun hp => (possible_concat.mp hp).2.2 rfl hforced
      exact safe_impossible hnot (fun t' _ hpre hno => ⟨(List.prefix_append _ _).trans hpre,
        .of_impossible hno, hforced.mono ((List.prefix_append _ _).trans hpre)⟩) _

theorem startConfigHotReloader_calm : Calm H (startConfigHotReloader fuel io) := by
  intro t ht
  refine safe_perform ht (fun _ => ⟨Set.empty_subset _, imp_of_eq_false rfl⟩) fun spawned ht₁ => ?_
  cases spawned with
  | true =>
    have hsame : locks.after H ⟨.spawn, true⟩ = H := by simp [Discipline.after, locks]
    rw [hsame] at ht₁
    exact ⟨List.prefix_append _ _, ht₁⟩
  | false =>
    have hnot : ¬ Possible (t ++ [⟨.spawn, false⟩]) :=
      fun hp => absurd (possible_concat.mp hp).2.2 (by simp [Credible])
    exact safe_impossible hnot
      (fun t' _ hpre hno => ⟨(List.prefix_append _ _).trans hpre, .of_impossible hno⟩) _

theorem lockRegistry_safe {m : LockAct α} {R : LockTr → α → Prop} (hR : Lasting R)
    (hH : Below (Token.cell .registry).rank H) (ht : Has H t)
    (hm : ∀ t', t <+: t' → Has (H ∪ {.mutex .registry}) t' →
      Safe lockInv (fun t'' _ a => t' <+: t'' ∧ Has (H ∪ {.mutex .registry}) t'' ∧ R t'' a)
        (m ()) t') :
    Safe lockInv (fun t' _ a => t <+: t' ∧ Has H t' ∧ R t' a) (lockRegistry fuel io m ()) t := by
  have hforce : Safe lockInv (fun t' _ _ => t <+: t' ∧ Has H t' ∧ Forced t' .registry)
      (force .registry (startConfigHotReloader fuel io) ()) t :=
    force_safe ht (.inl hH) fun _ => startConfigHotReloader_calm
  refine safe_bind (safe_mono ?_ hforce)
  rintro t₁ _ _ ⟨hpre, ht₁, -⟩
  refine safe_mono ?_ (withLock_safe hR (hH.mono (by decide)) ht₁
    fun t₂ hpre₂ ht₂ => hm t₂ (hpre.trans hpre₂) ht₂)
  rintro t₂ _ _ ⟨hpre₂, hrest⟩
  exact ⟨hpre.trans hpre₂, hrest⟩

theorem lockRegistry_calm {m : LockAct α} (hH : Below (Token.cell .registry).rank H)
    (hm : Calm (H ∪ {.mutex .registry}) m) : Calm H (lockRegistry fuel io m) := by
  intro t ht
  refine safe_mono ?_ (lockRegistry_safe (R := fun _ _ => True) (fun _ _ _ _ h => h) hH ht
    fun t' _ ht' => safe_mono (fun _ _ _ h => ⟨h.1, h.2, trivial⟩) (hm t' ht'))
  exact fun _ _ _ h => ⟨h.1, h.2.1⟩

/-- The configuration files are read with nothing held or in the initialiser. -/
theorem readToString_calm (hio : OwnCalm io) (hH : Below (Token.cell .registry).rank H)
    (hown : H = ∅ ∨ Token.cell .config ∈ H) : Calm H (readToString fuel io) := by
  have hopen : Calm H (perform LockOp.openFile : LockAct (Option Fd)) := by
    apply calm_perform rfl (fun _ => rfl)
    intro t ht _
    rwa [ht]
  apply calm_bind hopen
  intro found
  cases found with
  | none => exact calm_pure ()
  | some fd =>
    apply calm_bind (repeatedly_calm (hio H (.read fd fileBuffer) hH hown))
    intro _
    apply calm_bind (hio H (.close fd) hH trivial)
    intro _
    exact calm_pure ()

theorem loadRuntimeConfig_calm (hio : OwnCalm io) (hH : Below (Token.cell .registry).rank H)
    (hown : H = ∅ ∨ Token.cell .config ∈ H) : Calm H (loadRuntimeConfig fuel io) := by
  apply calm_bind (readToString_calm hio hH hown)
  intro _
  apply calm_bind choice_calm
  intro b
  cases b with
  | true => exact calm_pure ()
  | false => exact readToString_calm hio hH hown

theorem forceConfig_safe (hio : OwnCalm io) (ht : Has H t)
    (hc : Below (Token.cell .config).rank H ∨ Forced t .config) :
    Safe lockInv (fun t' _ _ => t <+: t' ∧ Has H t' ∧ Forced t' .config)
      (force .config (loadRuntimeConfig fuel io) ()) t := by
  apply force_safe (c := .config) ht hc
  intro hbelow
  apply loadRuntimeConfig_calm hio
  · exact (hbelow.mono (by decide)).insert (by decide)
  · exact .inr (Set.mem_union_right _ rfl)

/-- The configuration is read before anything ranks above its cell, or once it is known to be
there. -/
theorem readConfig_safe (hio : OwnCalm io) {m : LockAct α} (ht : Has H t)
    (hH : Below (Token.share 0).rank H) (hc : Below (Token.cell .config).rank H ∨ Forced t .config)
    (hm : ∀ n, Calm (H ∪ {.share n}) m) :
    Safe lockInv (fun t' _ _ => t <+: t' ∧ Has H t' ∧ Forced t' .config)
      (readConfig fuel io m ()) t := by
  refine safe_bind (safe_mono ?_ (forceConfig_safe hio ht hc))
  rintro t₁ _ _ ⟨hpre, ht₁, hforced⟩
  refine safe_perform ht₁ (fun h => ⟨Set.empty_subset _, by rwa [Ordered, h]⟩) fun n ht₂ => ?_
  have htaken : locks.after H ⟨.readLock, n⟩ = H ∪ {.share n} := by simp [Discipline.after, locks]
  rw [htaken] at ht₂
  refine (hm n).bind_safe ht₂ fun t₃ _ hpre₃ ht₃ => ?_
  refine safe_perform ht₃ (fun _ => ⟨by simp [locks], imp_of_eq_false rfl⟩) fun _ ht₄ => ?_
  have hnot : Token.share n ∉ H := Below.not_mem hH
  have hgiven : locks.after (H ∪ {.share n}) ⟨.readUnlock n, ()⟩ = H := by
    simp [Discipline.after, locks, Set.sdiff_singleton_eq_self hnot]
  rw [hgiven] at ht₄
  have hlong : t₁ <+: t₃ ++ [⟨.readUnlock n, ()⟩] :=
    (List.prefix_append _ _).trans (hpre₃.trans (List.prefix_append _ _))
  exact ⟨hpre.trans hlong, ht₄, hforced.mono hlong⟩

theorem report_calm (hio : OwnCalm io) {text : Option String}
    (h : Below (Token.mutex .stderr).rank H ∨ text = none) : Calm H (report fuel io text) := by
  cases text with
  | none => exact calm_pure ()
  | some text =>
    rcases h with h | h
    · exact eprintln_calm hio h text
    · cases h

theorem guarded_safe (hio : OwnCalm io) {o : Op} {answer : LockAct (Resp o)}
    (ha : Answer H o answer) (ht : Has H t) (hH : Below (Token.share 0).rank H)
    (hc : Below (Token.cell .config).rank H ∨ Forced t .config)
    (hmsg : Below (Token.mutex .stderr).rank H ∨ message o = none) :
    Safe lockInv (fun t' _ _ => t <+: t' ∧ Has H t' ∧ (readsConfig o = true → Forced t' .config))
      (guarded fuel io o answer ()) t := by
  unfold guarded
  split
  case isTrue hr =>
    refine safe_mono ?_ (readConfig_safe hio ht hH hc (ha.share hr))
    rintro t' _ _ ⟨hpre, ht', hforced⟩
    exact ⟨hpre, ht', fun _ => hforced⟩
  case isFalse hr =>
    refine safe_mono ?_ (calm_bind (report_calm hio hmsg) (fun _ => ha.plain) t ht)
    rintro t' _ _ ⟨hpre, ht'⟩
    exact ⟨hpre, ht', fun h => absurd h hr⟩

/-- A message is written, if at all, with no more than a session held. -/
def soft (H : Set Token) : Obligation Resp Unit where
  call _ _ o := Below (Token.mutex .stderr).rank H ∨ message o = none
  cut _ _ := True

theorem soft_of_below (hH : Below (Token.mutex .stderr).rank H) (p : Prog Resp Unit α) (u : Tr) :
    Safe (soft H) (fun _ _ _ => True) p u :=
  safe_of_extends (fun _ _ _ => Or.inl hH) (fun _ _ => trivial) (fun _ _ _ => trivial) p

theorem query_answer (nested : Bool) (o : Op) :
    Answer H o (perform (LockOp.hook nested (.query o))) :=
  ⟨calm_perform rfl (fun _ => rfl) fun _ _ => imp_of_eq_false rfl,
    fun _ _ => calm_perform rfl (fun _ => rfl) fun _ _ => imp_of_eq_false rfl⟩

theorem asking_safe (hio : OwnCalm io) {nested : Bool} (hH : Below (Token.share 0).rank H)
    {p : Prog Resp Unit α} {u : Tr} (hp : Safe (soft H) (fun _ _ _ => True) p u) (ht : Has H t)
    (hc : Below (Token.cell .config).rank H ∨ Forced t .config) :
    Safe lockInv (fun t' _ _ => t <+: t' ∧ Has H t') (asking fuel io nested p) t := by
  induction p generalizing t u with
  | done s a => exact ⟨List.prefix_rfl, ht⟩
  | cut s => trivial
  | call s o k ih =>
    refine safe_bind (safe_mono ?_ (guarded_safe hio (query_answer nested o) ht hH hc hp.1))
    rintro t₁ _ r ⟨hpre, ht₁, -⟩
    refine safe_mono ?_ (ih r (hp.2 r) ht₁ (hc.imp_right fun h => h.mono hpre))
    rintro t₂ _ _ ⟨hpre₂, ht₂⟩
    exact ⟨hpre.trans hpre₂, ht₂⟩

/-- Once a state is built that takes a look at the configuration, the configuration is there. -/
theorem asking_forced (hio : OwnCalm io) {nested : Bool} (hH : Below (Token.mutex .stderr).rank H)
    {s : Unit} {o : Op} (ho : readsConfig o = true) {k : Resp o → Prog Resp Unit α}
    (ht : Has H t) :
    Safe lockInv (fun t' _ _ => t <+: t' ∧ Has H t' ∧ Forced t' .config)
      (asking fuel io nested (.call s o k)) t := by
  have hc : Below (Token.cell .config).rank H := hH.mono (by decide)
  refine safe_bind (safe_mono ?_ (guarded_safe hio (query_answer nested o) ht
    (hH.mono (by decide)) (.inl hc) (.inl hH)))
  rintro t₁ _ r ⟨hpre, ht₁, hforced⟩
  refine safe_mono ?_ (asking_safe hio (hH.mono (by decide)) (soft_of_below hH (k r) []) ht₁
    (.inl hc))
  rintro t₂ _ _ ⟨hpre₂, ht₂⟩
  exact ⟨hpre.trans hpre₂, ht₂, (hforced ho).mono hpre₂⟩

theorem onSession_answer (hH : Below (Token.cell .registry).rank H) (h : Handle) (o : Op) :
    Answer H o (perform (LockOp.onSession h o)) := by
  constructor
  · apply calm_perform rfl (fun _ => rfl)
    intro t ht _
    rwa [ht]
  · intro ho n
    apply calm_perform rfl (fun _ => rfl)
    intro t _ hb
    cases o with
    | send | recv => cases ho
    | _ => cases hb

theorem inSession_safe (hio : OwnCalm io) (hH : Below (Token.mutex .stderr).rank H) (h : Handle)
    (p : Prog Resp FdState α) (ht : Has H t) :
    Safe lockInv (fun t' _ _ => t <+: t' ∧ Has H t') (inSession fuel io h p) t := by
  induction p generalizing t with
  | done s a => exact ⟨List.prefix_rfl, ht⟩
  | cut s => trivial
  | call s o k ih =>
    refine safe_bind (safe_mono ?_ (guarded_safe hio
      (onSession_answer (hH.mono (by decide)) h o) ht (hH.mono (by decide))
      (.inl (hH.mono (by decide))) (.inl hH)))
    rintro t₁ _ r ⟨hpre, ht₁, -⟩
    refine safe_mono ?_ (ih r ht₁)
    rintro t₂ _ _ ⟨hpre₂, ht₂⟩
    exact ⟨hpre.trans hpre₂, ht₂⟩

theorem below_session (h : Handle) :
    Below (Token.mutex .stderr).rank {Token.mutex (.session h)} := by
  rintro x rfl
  exact Nat.one_pos

theorem sessionState_calm (h : Handle) :
    Calm H (perform (LockOp.sessionState h) : LockAct FdState) :=
  calm_perform rfl (fun _ => rfl) fun _ _ => imp_of_eq_false rfl

/-- A session is entered with nothing held. -/
theorem serve_calm (hio : OwnCalm io) (nested : Bool) (h : Handle) (o : HookOp)
    (m : FdAct (HookResp o)) : Calm ∅ (serve fuel io nested h o m) := by
  intro t ht
  refine safe_perform ht (fun hH => ⟨Set.empty_subset _, ?_⟩) fun _ ht₁ => ?_
  · rw [Ordered, hH]
    exact below_empty _
  have htaken : locks.after ∅ ⟨.lock (.session h), ()⟩ = {.mutex (.session h)} := by
    simp [Discipline.after, locks]
  rw [htaken] at ht₁
  refine (sessionState_calm h).bind_safe ht₁ fun t₂ st hpre₂ ht₂ => ?_
  refine safe_bind (safe_mono ?_ (inSession_safe hio (below_session h) h (m st) ht₂))
  rintro t₃ _ a ⟨hpre₃, ht₃⟩
  refine safe_perform ht₃ (fun _ => ⟨by simp [locks], imp_of_eq_false rfl⟩) fun _ ht₄ => ?_
  have hgiven : locks.after {.mutex (.session h)} ⟨.release nested h ⟨o, a⟩, ()⟩ = ∅ := by
    simp [Discipline.after, locks]
  rw [hgiven] at ht₄
  exact ⟨(List.prefix_append _ _).trans
    (hpre₂.trans (hpre₃.trans (List.prefix_append _ _))), ht₄⟩

/-- The calls of a hook that make no entry; a session is entered and the configuration read with
nothing held. -/
def plain (H : Set Token) : Obligation HookResp Unit where
  call _ _ o :=
    match o with
    | .insert _ _ | .orInsert _ _ => False
    | .query _ | .overlaySend _ _ _ _ | .overlayRecv _ _ _ _ _ => H = ∅
    | _ => True
  cut _ _ := True

variable {P : Primitives}

theorem hookOp_calm (hio : OwnCalm io) (nested : Bool) (hH : Below (Token.cell .registry).rank H)
    {o : HookOp} {u : Trace HookResp} (ho : (plain H).call u () o) :
    Calm H (hookOp fuel io P nested o) := by
  cases o with
  | containsKey | lookup | remove =>
    apply lockRegistry_calm hH
    exact calm_perform rfl (fun _ => rfl) fun _ _ => imp_of_eq_false rfl
  | insert | orInsert => cases ho
  | query o =>
    intro t ht
    cases ho
    refine safe_mono ?_ (guarded_safe hio (query_answer nested o) ht (below_empty _)
      (.inl (below_empty _)) (.inl (below_empty _)))
    rintro t' _ _ ⟨hpre, ht', -⟩
    exact ⟨hpre, ht'⟩
  | overlaySend | overlayRecv =>
    cases ho
    exact serve_calm hio _ _ _ _
  | soType | blockedBypassAttempt =>
    exact calm_perform rfl (fun _ => rfl) fun _ _ => imp_of_eq_false rfl
  | real c =>
    apply calm_perform rfl (fun _ => rfl)
    intro t ht _
    rwa [ht]

theorem lowered_safe (hio : OwnCalm io) (nested : Bool) (hH : Below (Token.cell .registry).rank H)
    {p : Prog HookResp Unit α} {u : Trace HookResp}
    (hp : Safe (plain H) (fun _ _ _ => True) p u) (ht : Has H t) :
    Safe lockInv (fun t' _ _ => t <+: t' ∧ Has H t') (lowered fuel io P nested p) t := by
  induction p generalizing t u with
  | done s a => exact ⟨List.prefix_rfl, ht⟩
  | cut s => trivial
  | call s o k ih =>
    refine (hookOp_calm hio nested hH hp.1).bind_safe ht fun t₁ r hpre ht₁ => ?_
    refine safe_mono ?_ (ih r (hp.2 r) ht₁)
    rintro t₂ _ _ ⟨hpre₂, ht₂⟩
    exact ⟨hpre.trans hpre₂, ht₂⟩

/-- A descriptor on which the library may call its own hooks with `H` held. -/
def Spared (H : Set Token) (fd : Fd) : Prop := H = ∅ ∨ fd = stderrFd ∨ Token.cell .config ∈ H

theorem Spared.empty {fd : Fd} (h : Spared H fd) (hfd : fd ≠ stderrFd)
    (hc : Token.cell .config ∉ H) : H = ∅ := by
  rcases h with h | h | h
  · exact h
  · exact absurd h hfd
  · exact absurd h hc

/-- A descriptor that is tracked was asked for with nothing held. -/
def Free (H : Set Token) (t : LockTr) (known : Bool) : Prop :=
  known = true → Possible t → H = ∅

theorem lasting_free : Lasting (Free H) :=
  fun _ _ _ ht h hk hp => h hk (hp.mono ht)

theorem containsKey_safe {nested : Bool} {fd : Fd} (hfd : Spared H fd)
    (ht : Has (H ∪ {.mutex .registry}) t) :
    Safe lockInv (fun t' _ known => t <+: t' ∧ Has (H ∪ {.mutex .registry}) t' ∧ Free H t' known)
      (perform (LockOp.hook nested (.containsKey fd)) ()) t := by
  refine safe_step ht (fun _ => ⟨Set.empty_subset _, imp_of_eq_false rfl⟩) fun known ht₁ => ?_
  have hsame : locks.after (H ∪ {.mutex .registry}) ⟨.hook nested (.containsKey fd), known⟩ =
      H ∪ {.mutex .registry} := by simp [Discipline.after, locks]
  rw [hsame] at ht₁
  refine ⟨List.prefix_append _ _, ht₁, fun hk hp => ?_⟩
  obtain ⟨hp₀, -, hcredible⟩ := possible_concat.mp hp
  obtain ⟨hne, hc⟩ := hcredible hk
  rw [ht hp₀] at hc
  exact hfd.empty hne fun h => hc (Set.mem_union_left _ h)

theorem newResponderState_soft (suite : CipherSuite) :
    Safe (soft H) (fun _ _ _ => True) (newResponderState suite ()) [] := by
  refine ⟨.inr rfl, fun r => ?_⟩
  cases r with
  | none => exact ⟨.inr rfl, fun _ => ⟨.inr rfl, fun _ => trivial⟩⟩
  | some suite => exact ⟨.inr rfl, fun _ => ⟨.inr rfl, fun _ => trivial⟩⟩

/-- The second critical section of `ensure_tracked`: the policy is read with the registry
locked, when the configuration is known to be there. -/
theorem fillEntry_safe (hio : OwnCalm io) {nested : Bool} {fd : Fd} (hfd : fd ≠ stderrFd)
    (suite : CipherSuite) (ht : Has {.mutex .registry} t) (hc : Forced t .config) :
    Safe lockInv (fun t' _ _ => t <+: t' ∧ Has {.mutex .registry} t')
      ((do
        let st ← ask fuel io nested (newResponderState suite)
        perform (LockOp.hook nested (.orInsert fd st)) : LockAct Unit) ()) t := by
  have hbelow : Below (Token.share 0).rank {Token.mutex .registry} := by
    rintro x rfl
    decide
  refine safe_bind (safe_mono ?_ (asking_safe hio hbelow (newResponderState_soft suite) ht
    (.inr hc)))
  rintro t₁ _ st ⟨hpre, ht₁⟩
  refine safe_step ht₁ (fun _ => ⟨Set.empty_subset _, hfd, hc.mono hpre⟩) fun _ ht₂ => ?_
  have hsame : locks.after {.mutex .registry} ⟨.hook nested (.orInsert fd st), ()⟩ =
      {.mutex .registry} := by
    simp [Discipline.after, locks]
  rw [hsame] at ht₂
  exact ⟨hpre.trans (List.prefix_append _ _), ht₂⟩

theorem ensureTracked_safe (hio : OwnCalm io) (nested : Bool) {fd : Fd}
    (hH : Below (Token.cell .registry).rank H) (hfd : Spared H fd) (ht : Has H t) :
    Safe lockInv (fun t' _ known => t <+: t' ∧ Has H t' ∧ Free H t' known)
      (ensureTracked fuel io nested fd ()) t := by
  refine safe_bind (safe_mono ?_ (lockRegistry_safe lasting_free hH ht
    fun t' _ ht' => containsKey_safe hfd ht'))
  rintro t₁ _ known ⟨hpre₁, ht₁, hfree⟩
  cases known with
  | true => exact ⟨hpre₁, ht₁, hfree⟩
  | false =>
    refine safe_perform ht₁ (fun _ => ⟨Set.empty_subset _, imp_of_eq_false rfl⟩) fun stype ht₂ => ?_
    have hsame : locks.after H ⟨.hook nested (.soType fd), stype⟩ = H := by
      simp [Discipline.after, locks]
    rw [hsame] at ht₂
    have hpre₂ := hpre₁.trans (List.prefix_append t₁ [⟨.hook nested (.soType fd), stype⟩])
    split
    case isTrue => exact ⟨hpre₂, ht₂, imp_of_eq_false rfl⟩
    case isFalse hstream =>
      by_cases hp : Possible (t₁ ++ [⟨.hook nested (.soType fd), stype⟩])
      · obtain ⟨hp₁, -, hcredible⟩ := possible_concat.mp hp
        obtain ⟨hne, hc⟩ := hcredible (not_not.mp hstream)
        rw [ht₁ hp₁] at hc
        obtain rfl := hfd.empty hne hc
        refine safe_bind (safe_mono ?_ (asking_forced hio (below_empty _) rfl ht₂))
        rintro t₃ _ suite ⟨hpre₃, ht₃, hforced⟩
        refine safe_bind (safe_mono ?_ (lockRegistry_safe (R := fun _ _ => True)
          (fun _ _ _ _ h => h) hH ht₃ fun t' hpre' ht' => ?_))
        · rintro t₄ _ _ ⟨hpre₄, ht₄, -⟩
          exact ⟨hpre₂.trans (hpre₃.trans hpre₄), ht₄, fun _ _ => rfl⟩
        · refine safe_bind (safe_mono ?_ (containsKey_safe (.inl rfl) ht'))
          rintro t₅ _ known ⟨hpre₅, ht₅, -⟩
          cases known with
          | true => exact ⟨hpre₅, ht₅, trivial⟩
          | false =>
            rw [Set.empty_union] at ht₅ ⊢
            refine safe_mono ?_ (fillEntry_safe hio hne suite ht₅
              (hforced.mono (hpre'.trans hpre₅)))
            rintro t₆ _ _ ⟨hpre₆, ht₆⟩
            exact ⟨hpre₅.trans hpre₆, ht₆, trivial⟩
      · exact safe_impossible hp (fun t' _ hpre hno => ⟨hpre₂.trans hpre, .of_impossible hno,
          fun _ hp' => absurd hp' hno⟩) _

theorem connect_calm (hio : OwnCalm io) (nested : Bool) (fd : Fd) :
    Calm ∅ (connect fuel io P nested fd) := by
  intro t ht
  refine safe_perform ht (fun hH => ⟨Set.empty_subset _, fun _ => ?_⟩) fun res ht₁ => ?_
  · rw [hH]
    exact below_empty _
  have hsame : locks.after ∅ ⟨.hook nested (.real (.connect fd)), res⟩ = ∅ := by
    simp [Discipline.after, locks]
  rw [hsame] at ht₁
  have hpre₁ := List.prefix_append t [⟨.hook nested (.real (.connect fd)), res⟩]
  split
  case isFalse => exact ⟨hpre₁, ht₁⟩
  case isTrue hstarts =>
    by_cases hp : Possible (t ++ [⟨.hook nested (.real (.connect fd)), res⟩])
    · have hne : fd ≠ stderrFd := (possible_concat.mp hp).2.2 hstarts
      refine safe_bind (safe_mono ?_ (asking_forced hio (below_empty _) rfl ht₁))
      rintro t₂ _ st ⟨hpre₂, ht₂, hforced⟩
      refine safe_bind (safe_mono ?_ (lockRegistry_safe (R := fun _ _ => True)
        (fun _ _ _ _ h => h) (below_empty _) ht₂ fun t' hpre' ht' => ?_))
      · rintro t₃ _ _ ⟨hpre₃, ht₃, -⟩
        exact ⟨hpre₁.trans (hpre₂.trans hpre₃), ht₃⟩
      · refine safe_step ht' (fun _ => ⟨Set.empty_subset _, hne, hforced.mono hpre'⟩)
          fun _ ht₃ => ?_
        have hkept : locks.after (∅ ∪ {.mutex .registry}) ⟨.hook nested (.insert fd st), ()⟩ =
            ∅ ∪ {.mutex .registry} := by simp [Discipline.after, locks]
        rw [hkept] at ht₃
        exact ⟨List.prefix_append _ _, ht₃, trivial⟩
    · exact safe_impossible hp
        (fun t' _ hpre hno => ⟨hpre₁.trans hpre, .of_impossible hno⟩) _

/-- A hook that does not track, other than `connect`, makes no entry. -/
theorem plain_rule {c : HookCall} (htr : c.tracks = false) (hc : ∀ fd, c ≠ .connect fd) :
    HookRule P (plain ∅) c where
  calm := fun t o ho henters => by
    cases o with
    | insert | orInsert => cases ho
    | query => rfl
    | overlaySend | overlayRecv => cases henters
    | _ => trivial
  enter := fun t fd h c' o ho => by
    cases o with
    | overlaySend | overlayRecv => rfl
    | _ => cases ho
  cut := fun _ => trivial
  real := fun _ _ => trivial
  insert := fun fd _ _ _ heq => absurd heq (hc fd)
  orInsert := fun _ _ _ _ h => by
    rw [htr] at h
    cases h
  remove := fun _ _ => trivial

theorem forward_plain (c : HookCall) (u : Trace HookResp) :
    Safe (plain H) (fun _ _ _ => True) (forward c ()) u := ⟨trivial, fun _ => trivial⟩

theorem sendSlice_plain (P : Primitives) {fd : Fd} {buf : InBuf} {flags : Flags} :
    Safe (plain ∅) (fun _ _ _ => True) (sendSlice fuel fd buf flags ()) [] := by
  have hrule : HookRule P (plain ∅) (.close fd) := plain_rule rfl (by simp)
  unfold sendSlice
  cases inputSlice buf with
  | ok plaintext => exact hookSend_safe hrule
  | error e => trivial

/-- On a tracked descriptor a hook looks up and enters a session. -/
theorem served_plain (P : Primitives) (c : HookCall) :
    Safe (plain ∅) (fun _ _ _ => True) (served fuel c ()) [] := by
  have hrule : HookRule P (plain ∅) (.close 0) := plain_rule rfl (by simp)
  cases c with
  | send fd buf flags => exact sendSlice_plain P
  | write fd buf => exact sendSlice_plain P
  | recv fd buf flags | read fd buf =>
    exact safe_bind (safe_mono (fun _ _ _ _ => trivial) (hookRecv_safe hrule))
  | writev fd iov iovcnt => exact overlayWriteIov_safe hrule
  | readv fd iov iovcnt => exact overlayReadIov_safe hrule
  | sendmsg fd msg flags =>
    cases msg with
    | none => exact forward_plain _ _
    | some msg => exact overlayWriteIov_safe hrule
  | recvmsg fd msg flags =>
    cases msg with
    | none => exact forward_plain _ _
    | some msg => exact overlayReadIov_safe hrule
  | _ => exact forward_plain _ _

theorem trackingHook_calm (hio : OwnCalm io) (nested : Bool) {c : HookCall}
    (hH : Below (Token.cell .registry).rank H) (hc : Spared H c.fd) :
    Calm H (trackingHook P fuel io nested c) := by
  intro t ht
  unfold trackingHook
  cases refusal c with
  | some e => exact ⟨List.prefix_rfl, ht⟩
  | none =>
    refine safe_bind (safe_mono ?_ (ensureTracked_safe hio nested hH hc ht))
    rintro t₁ _ known ⟨hpre, ht₁, hfree⟩
    have hafter : ∀ t₂ (_ : Unit) (_ : HookRet), t₁ <+: t₂ ∧ Has H t₂ → t <+: t₂ ∧ Has H t₂ :=
      fun _ _ _ h => ⟨hpre.trans h.1, h.2⟩
    cases known with
    | false => exact safe_mono hafter (lowered_safe hio nested hH (forward_plain c []) ht₁)
    | true =>
      by_cases hp : Possible t₁
      · obtain rfl := hfree rfl hp
        exact safe_mono hafter (lowered_safe hio nested hH (served_plain P c) ht₁)
      · exact safe_impossible hp (fun t' _ hpre' hno => ⟨hpre.trans hpre', .of_impossible hno⟩) _

theorem Own.spared {c : HookCall} (h : H = ∅ ∨ Own H c) (htr : c.tracks = true) :
    Spared H c.fd := by
  rcases h with h | h
  · exact .inl h
  · cases c with
    | write fd buf => exact .inr (.inl h)
    | read fd buf => exact h.imp_right .inr
    | close => cases htr
    | _ => cases h

/-- Of the hooks that do not track, the library calls `close`. -/
theorem body_plain {c : HookCall} (htr : c.tracks = false) (hc : ∀ fd, c ≠ .connect fd)
    (h : H = ∅ ∨ Own H c) : Safe (plain H) (fun _ _ _ => True) (c.body P fuel ()) [] := by
  rcases h with rfl | h
  · exact HookCall.body_safe (plain_rule htr hc) fuel
  · cases c with
    | close fd => exact ⟨trivial, fun _ => forward_plain _ _⟩
    | write | read => cases htr
    | _ => cases h

variable {interpositionEnabled : Bool}

/-- Every hook keeps to the order: from the application with nothing held, and from the library
itself with what it then holds. -/
theorem hookCall_calm (hio : OwnCalm io) (nested : Bool) {c : HookCall}
    (hH : Below (Token.cell .registry).rank H) (hc : H = ∅ ∨ Own H c) :
    Calm H (hookCall P fuel interpositionEnabled io nested c) := by
  intro t ht
  cases interpositionEnabled with
  | false => exact lowered_safe hio nested hH (forward_plain c []) ht
  | true =>
    obtain htr | ⟨fd, rfl⟩ | ⟨htr, hne⟩ := hookCall_kinds c
    · rw [hookCall_tracking htr]
      exact trackingHook_calm hio nested hH (Own.spared hc htr) t ht
    · rcases hc with rfl | hc
      · exact connect_calm hio nested fd t ht
      · cases hc
    · rw [hookCall_other htr hne]
      exact lowered_safe hio nested hH (body_plain htr hne hc) ht

/-- So do the hooks that the library calls itself, at every depth. -/
theorem interposed_calm (depth : ℕ) : OwnCalm (interposed P fuel interpositionEnabled depth) := by
  induction depth with
  | zero => exact fun _ _ _ _ _ _ => trivial
  | succ depth ih => exact fun H c hH hown => hookCall_calm ih true hH (.inr hown)

theorem retire_calm (hio : OwnCalm io) (epoch : ℕ) (h : Handle) :
    Calm ∅ (retire fuel io epoch h) := by
  intro t ht
  refine safe_perform ht (fun _ => ⟨Set.empty_subset _, imp_of_eq_false rfl⟩) fun got ht₁ => ?_
  cases got with
  | false =>
    have hsame : locks.after ∅ ⟨.tryLock h, false⟩ = ∅ := by simp [Discipline.after, locks]
    rw [hsame] at ht₁
    exact ⟨List.prefix_append _ _, ht₁⟩
  | true =>
    have htaken : locks.after ∅ ⟨.tryLock h, true⟩ = {.mutex (.session h)} := by
      simp [Discipline.after, locks]
    rw [htaken] at ht₁
    refine (sessionState_calm h).bind_safe ht₁ fun t₂ st hpre₂ ht₂ => ?_
    refine safe_bind (safe_mono ?_ (inSession_safe hio (below_session h) h _ ht₂))
    rintro t₃ _ _ ⟨hpre₃, ht₃⟩
    refine safe_step ht₃ (fun _ => ⟨by simp [locks], imp_of_eq_false rfl⟩) fun _ ht₄ => ?_
    have hgiven : locks.after {.mutex (.session h)} ⟨.unlock (.session h), ()⟩ = ∅ := by
      simp [Discipline.after, locks]
    rw [hgiven] at ht₄
    exact ⟨(List.prefix_append _ _).trans
      (hpre₂.trans (hpre₃.trans (List.prefix_append _ _))), ht₄⟩

theorem retireAll_calm (hio : OwnCalm io) (epoch : ℕ) (handles : List Handle) :
    Calm ∅ (retireAll fuel io epoch handles) := by
  induction handles with
  | nil => exact calm_pure ()
  | cons h rest ih => exact calm_bind (retire_calm hio epoch h) fun _ => ih

theorem reloadRuntimeConfig_calm (hio : OwnCalm io) : Calm ∅ (reloadRuntimeConfig fuel io) := by
  apply calm_bind (loadRuntimeConfig_calm hio (below_empty _) (.inl rfl))
  intro _ t ht
  refine safe_bind (safe_mono ?_ (forceConfig_safe hio ht (.inl (below_empty _))))
  rintro t₁ _ _ ⟨hpre₁, ht₁, -⟩
  refine safe_perform ht₁ (fun hH => ⟨Set.empty_subset _, ?_⟩) fun _ ht₂ => ?_
  · rw [Ordered, hH]
    exact below_empty _
  have htaken : locks.after ∅ ⟨.writeLock, ()⟩ = shares := by simp [Discipline.after, locks]
  rw [htaken] at ht₂
  refine safe_step ht₂ (fun _ => ⟨subset_rfl, imp_of_eq_false rfl⟩) fun _ ht₃ => ?_
  have hgiven : locks.after shares ⟨.writeUnlock, ()⟩ = ∅ := by simp [Discipline.after, locks]
  rw [hgiven] at ht₃
  exact ⟨hpre₁.trans ((List.prefix_append _ _).trans (List.prefix_append _ _)), ht₃⟩

theorem handleConfigChange_calm (hio : OwnCalm io) (epoch : ℕ) :
    Calm ∅ (handleConfigChange fuel io epoch) := by
  apply calm_bind (reloadRuntimeConfig_calm hio)
  intro _
  have hhandles : Calm (∅ ∪ {.mutex .registry}) (perform LockOp.handles : LockAct (List Handle)) :=
    calm_perform rfl (fun _ => rfl) fun _ _ => imp_of_eq_false rfl
  apply calm_bind (calm_bind (lockRegistry_calm (below_empty _) hhandles)
    fun states => retireAll_calm hio epoch states)
  intro _
  exact eprintln_calm hio (below_empty _) _

/-- What a thread does keeps to the order and ends with nothing held. -/
theorem ThreadCall.run_calm (depth : ℕ) (c : ThreadCall) :
    Calm ∅ (c.run P fuel interpositionEnabled depth) := by
  cases c with
  | hook c =>
    apply calm_bind (hookCall_calm (interposed_calm depth) false (below_empty _) (.inl rfl))
    intro _
    exact calm_pure ()
  | configChange epoch => exact handleConfigChange_calm (interposed_calm depth) epoch
  | watcherUnavailable => exact eprintln_calm (interposed_calm depth) (below_empty _) _

end

end Locking
end SyntriassOverlay

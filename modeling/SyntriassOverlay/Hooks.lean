import SyntriassOverlay.Interceptor

/-!
# The interposed functions (interceptor.rs:37-60, 211-232, 456-510, 843-1311)

Each interposed function is a program of the thread that calls it. What it
shares with other threads (the registry, the sessions behind their locks) and
what it asks of the kernel are its calls; `Process` says what they do. A call of
`overlay_send` or `overlay_recv` from lock to unlock is one call here.

Memory behind a pointer is modelled by its content: `InBuf.null` is a null
pointer with a length, `InBuf.bytes` a valid buffer.
-/

namespace SyntriassOverlay
open Crypto Resumption

abbrev Fd := ℤ

/-- Identity of one `Arc<Mutex<FdState>>`. -/
abbrev Handle := ℕ

inductive InBuf where
  | null (len : ℕ)
  | bytes (b : Bytes)
  deriving DecidableEq

def InBuf.length : InBuf → ℕ
  | .null len => len
  | .bytes b => b.length

/-- `*const iovec`; a null pointer is `none`. -/
abbrev IoVec := Option (List InBuf)

structure RealRet where
  ret : ℤ
  errno : Errno
  deriving DecidableEq

/-- A call of one of the functions behind `RealSyms`, other than the ones made on
behalf of a session. -/
inductive RealCall where
  | connect (fd : Fd)
  | send (fd : Fd) (buf : InBuf) (flags : Flags)
  | sendto (fd : Fd) (buf : InBuf) (flags : Flags)
  | recv (fd : Fd) (len : ℕ) (flags : Flags)
  | write (fd : Fd) (buf : InBuf)
  | read (fd : Fd) (len : ℕ)
  | writev (fd : Fd) (iov : IoVec) (iovcnt : ℤ)
  | readv (fd : Fd) (iov : IoVec) (iovcnt : ℤ)
  | sendmsg (fd : Fd) (msg : Option (IoVec × ℕ)) (flags : Flags)
  | recvmsg (fd : Fd) (msg : Option (IoVec × ℕ)) (flags : Flags)
  | sendmmsg (fd : Fd) (vlen : ℕ) (flags : Flags)
  | sendfile (outFd inFd : Fd) (count : ℕ)
  | sendfile64 (outFd inFd : Fd) (count : ℕ)
  | splice (fdIn fdOut : Fd) (len : ℕ) (flags : Flags)
  | close (fd : Fd)
  deriving DecidableEq

/-- The descriptors to which a real call could carry application bytes. -/
def RealCall.egress : RealCall → List Fd
  | .send fd _ _ | .sendto fd _ _ | .write fd _ | .writev fd _ _ | .sendmsg fd _ _
  | .sendmmsg fd _ _ => [fd]
  | .sendfile outFd _ _ | .sendfile64 outFd _ _ => [outFd]
  | .splice fdIn fdOut _ _ => [fdIn, fdOut]
  | _ => []

inductive HookOp where
  | containsKey (fd : Fd)
  | lookup (fd : Fd)
  | soType (fd : Fd)
  | query (o : Op)
  | insert (fd : Fd) (st : FdState)
  | orInsert (fd : Fd) (st : FdState)
  | remove (fd : Fd)
  | overlaySend (h : Handle) (plaintext : Bytes) (flags : Flags) (fuel : ℕ)
  | overlayRecv (h : Handle) (len : ℕ) (hlen : 0 < len) (flags : Flags) (fuel : ℕ)
  | blockedBypassAttempt
  | real (c : RealCall)

/-- The answers; a failed `getsockopt` is `none`. -/
@[reducible] def HookResp : HookOp → Type
  | .containsKey _ => Bool
  | .lookup _ => Option Handle
  | .soType _ => Option ℕ
  | .query o => Resp o
  | .insert _ _ | .orInsert _ _ | .remove _ | .blockedBypassAttempt => Unit
  | .overlaySend _ _ _ _ => Except Errno ℕ
  | .overlayRecv _ _ _ _ _ => Except Errno Bytes
  | .real _ => RealRet

abbrev HookAct (α : Type) := Act HookResp Unit α

/-- What an interposed function returns: a count, bytes copied to the caller's
buffer or buffers, `-1` with an errno, or what the real function returned. `undefined` is
a call that comes to undefined behaviour before it has done anything; a build with debug
assertions aborts there. -/
inductive HookRet where
  | count (n : ℕ)
  | data (b : Bytes)
  | scattered (pieces : List Bytes)
  | error (e : Errno)
  | real (r : RealRet)
  | undefined
  deriving DecidableEq

/-- Queries made while a state is built. -/
def asQueries {α : Type} : Prog Resp Unit α → Prog HookResp Unit α
  | .done s a => .done s a
  | .call s o k => .call s (.query o) fun r => asQueries (k r)
  | .cut s => .cut s

def building {α : Type} (m : Act Resp Unit α) : HookAct α := fun s => asQueries (m s)

/-! ### Socket type and registry -/

/-- `SOCK_STREAM` of Linux. -/
def sockStream : ℕ := 1

def isStreamSocket (fd : Fd) : HookAct Bool := do
  match ← perform (HookOp.soType fd) with
  | some stype => pure (stype == sockStream)
  | none => pure false

/-- The errno that goes with `true` is set by `blocked` below. -/
def blockStreamEgress (fd : Fd) : HookAct Bool := do
  if ← isStreamSocket fd then do
    perform HookOp.blockedBypassAttempt
    pure true
  else pure false

def ensureTracked (fd : Fd) : HookAct Bool := do
  if ← perform (HookOp.containsKey fd) then pure true
  else if !(← isStreamSocket fd) then pure false
  else
    let suite ← building failedPolicySuite
    -- `entry(fd).or_insert_with(..)`: the closure runs for a vacant entry only
    if ← perform (HookOp.containsKey fd) then pure true
    else do
      let st ← building (newResponderState suite)
      perform (HookOp.orInsert fd st)
      pure true

/-! ### Buffers -/

def inputSlice : InBuf → Except Errno Bytes
  | .null 0 => .ok []
  | .null (_ + 1) => .error EFAULT
  | .bytes b => .ok b

def maxIovCopy : ℕ := 16 * 1024 * 1024

/-- The loop of `iov_total`; a sum that overflows `usize` is over the limit too. -/
def iovSum (total : ℕ) : List InBuf → Except Errno ℕ
  | [] => .ok total
  | item :: items =>
    if total + item.length > maxIovCopy then .error EMSGSIZE else iovSum (total + item.length) items

def iovTotal (iov : IoVec) (iovcnt : ℕ) : Except Errno ℕ :=
  if iovcnt = 0 then .ok 0
  else match iov with
    | none => .error EFAULT
    | some items => iovSum 0 (items.take iovcnt)

/-- The copy loop of `gather_iov`. `none` is undefined behaviour: an entry without bytes is not
checked for a null base, and `slice::from_raw_parts` must not be given one. -/
def gatherItems (out : Bytes) : List InBuf → Option (Except Errno Bytes)
  | [] => some (.ok out)
  | .null 0 :: _ => none
  | .null (_ + 1) :: _ => some (.error EFAULT)
  | .bytes b :: items => gatherItems (out ++ b) items

def gatherIov (iov : IoVec) (iovcnt : ℕ) : Option (Except Errno Bytes) :=
  match iovTotal iov iovcnt with
  | .error e => some (.error e)
  | .ok _ => gatherItems [] (if iovcnt = 0 then [] else (iov.getD []).take iovcnt)

/-- The copy loop of `scatter_iov`: what is written to each buffer. -/
def scatterItems (data : Bytes) : List InBuf → Except Errno (List Bytes)
  | [] => .ok []
  | item :: items =>
    if data = [] then .ok []
    else match item with
      | .null (_ + 1) => .error EFAULT
      | _ => do
        let rest ← scatterItems (data.drop item.length) items
        pure (data.take item.length :: rest)

def scatterIov (iov : IoVec) (iovcnt : ℕ) (data : Bytes) : Except Errno (List Bytes) :=
  if data = [] then .ok []
  else match iov with
    | none => .error EFAULT
    | some items => scatterItems data (items.take iovcnt)

/-! ### Overlay calls through the registry -/

section
variable (P : Primitives) (fuel : ℕ)

def hookSend (fd : Fd) (plaintext : Bytes) (flags : Flags) : HookAct HookRet := do
  match ← perform (HookOp.lookup fd) with
  | none => pure (.error EBADF)
  | some h =>
    match ← perform (HookOp.overlaySend h plaintext flags fuel) with
    | .ok n => pure (.count n)
    | .error e => pure (.error e)

/-- `overlay_recv` on a buffer of `len` bytes; `null` says whether the pointer is
null. -/
def hookRecv (fd : Fd) (null : Bool) (len : ℕ) (flags : Flags) : HookAct (Except Errno Bytes) :=
  if hlen : 0 < len then
    if null then pure (.error EFAULT)
    else do
      match ← perform (HookOp.lookup fd) with
      | none => pure (.error EBADF)
      | some h => perform (HookOp.overlayRecv h len hlen flags fuel)
  else pure (.ok [])

def overlayWriteIov (fd : Fd) (iov : IoVec) (iovcnt : ℕ) (flags : Flags) : HookAct HookRet :=
  match gatherIov iov iovcnt with
  | some (.ok data) => hookSend fuel fd data flags
  | some (.error e) => pure (.error e)
  | none => pure .undefined

def overlayReadIov (fd : Fd) (iov : IoVec) (iovcnt : ℕ) (flags : Flags) : HookAct HookRet :=
  match iovTotal iov iovcnt with
  | .error e => pure (.error e)
  | .ok total =>
    if min total maxIovCopy = 0 then pure (.count 0)
    else do
      match ← hookRecv fuel fd false (min total maxIovCopy) flags with
      | .error e => pure (.error e)
      | .ok tmp =>
        match scatterIov iov iovcnt tmp with
        | .ok pieces => pure (.scattered pieces)
        | .error e => pure (.error e)

def installInitiatorState (fd : Fd) : HookAct Unit := do
  let st ← building (newInitiatorState P)
  perform (HookOp.insert fd st)

/-! ### The hooks -/

/-- A call of an interposed function with its arguments. -/
inductive HookCall where
  | connect (fd : Fd)
  | send (fd : Fd) (buf : InBuf) (flags : Flags)
  | sendto (fd : Fd) (buf : InBuf) (flags : Flags)
  | recv (fd : Fd) (buf : InBuf) (flags : Flags)
  | write (fd : Fd) (buf : InBuf)
  | read (fd : Fd) (buf : InBuf)
  | writev (fd : Fd) (iov : IoVec) (iovcnt : ℤ)
  | readv (fd : Fd) (iov : IoVec) (iovcnt : ℤ)
  | sendmsg (fd : Fd) (msg : Option (IoVec × ℕ)) (flags : Flags)
  | recvmsg (fd : Fd) (msg : Option (IoVec × ℕ)) (flags : Flags)
  | sendmmsg (fd : Fd) (vlen : ℕ) (flags : Flags)
  | sendfile (outFd inFd : Fd) (count : ℕ)
  | sendfile64 (outFd inFd : Fd) (count : ℕ)
  | splice (fdIn fdOut : Fd) (len : ℕ) (flags : Flags)
  | close (fd : Fd)

/-- The call a hook forwards when it does not interpose. -/
def HookCall.passThrough : HookCall → RealCall
  | .connect fd => .connect fd
  | .send fd buf flags => .send fd buf flags
  | .sendto fd buf flags => .sendto fd buf flags
  | .recv fd buf flags => .recv fd buf.length flags
  | .write fd buf => .write fd buf
  | .read fd buf => .read fd buf.length
  | .writev fd iov iovcnt => .writev fd iov iovcnt
  | .readv fd iov iovcnt => .readv fd iov iovcnt
  | .sendmsg fd msg flags => .sendmsg fd msg flags
  | .recvmsg fd msg flags => .recvmsg fd msg flags
  | .sendmmsg fd vlen flags => .sendmmsg fd vlen flags
  | .sendfile outFd inFd count => .sendfile outFd inFd count
  | .sendfile64 outFd inFd count => .sendfile64 outFd inFd count
  | .splice fdIn fdOut len flags => .splice fdIn fdOut len flags
  | .close fd => .close fd

def forward (c : HookCall) : HookAct HookRet := do
  let r ← perform (HookOp.real c.passThrough)
  pure (.real r)

/-- A hook that runs `m` on a tracked descriptor and forwards otherwise. -/
def tracked (fd : Fd) (c : HookCall) (m : HookAct HookRet) : HookAct HookRet := do
  if !(← ensureTracked fd) then forward c else m

/-- A hook that refuses a stream socket and forwards otherwise. -/
def blocked (fd : Fd) (m : HookAct HookRet) : HookAct HookRet := do
  if ← blockStreamEgress fd then pure (.error EOPNOTSUPP) else m

def received : Except Errno Bytes → HookRet
  | .ok b => .data b
  | .error e => .error e

def hookConnect (fd : Fd) : HookAct HookRet := do
  let res ← perform (HookOp.real (.connect fd))
  if res.ret = 0 ∨ (res.ret < 0 ∧ res.errno = EINPROGRESS) then do
    installInitiatorState P fd
    pure (.real res)
  else pure (.real res)

def hookClose (fd : Fd) : HookAct HookRet := do
  perform (HookOp.remove fd)
  forward (.close fd)

/-- The body of each hook with interposition enabled. -/
def HookCall.body (c : HookCall) : HookAct HookRet :=
  match c with
  | .connect fd => hookConnect P fd
  | .send fd buf flags => tracked fd c <|
      match inputSlice buf with
      | .ok plaintext => hookSend fuel fd plaintext flags
      | .error e => pure (.error e)
  | .sendto fd _ _ => blocked fd (forward c)
  | .recv fd buf flags => tracked fd c do
      let r ← hookRecv fuel fd (buf matches .null _) buf.length flags
      pure (received r)
  | .write fd buf => tracked fd c <|
      match inputSlice buf with
      | .ok plaintext => hookSend fuel fd plaintext 0
      | .error e => pure (.error e)
  | .read fd buf => tracked fd c do
      let r ← hookRecv fuel fd (buf matches .null _) buf.length 0
      pure (received r)
  | .writev fd iov iovcnt =>
      if iovcnt < 0 then pure (.error EINVAL)
      else tracked fd c (overlayWriteIov fuel fd iov iovcnt.toNat 0)
  | .readv fd iov iovcnt =>
      if iovcnt < 0 then pure (.error EINVAL)
      else tracked fd c (overlayReadIov fuel fd iov iovcnt.toNat 0)
  | .sendmsg fd msg flags =>
      match msg with
      | none => pure (.error EFAULT)
      | some (iov, iovlen) => tracked fd c (overlayWriteIov fuel fd iov iovlen flags)
  | .recvmsg fd msg flags =>
      match msg with
      | none => pure (.error EFAULT)
      | some (iov, iovlen) => tracked fd c (overlayReadIov fuel fd iov iovlen flags)
  | .sendmmsg fd _ _ => blocked fd (forward c)
  | .sendfile outFd _ _ => blocked outFd (forward c)
  | .sendfile64 outFd _ _ => blocked outFd (forward c)
  | .splice fdIn fdOut _ _ => blocked fdIn (blocked fdOut (forward c))
  | .close fd => hookClose fd

def HookCall.run (interpositionEnabled : Bool) (c : HookCall) : HookAct HookRet :=
  if !interpositionEnabled then forward c else c.body P fuel

end

/-! ### What a hook has done before it touches the registry or the kernel -/

/-- A query in the trace of a thread. -/
def queried (e : Ev Resp) : Ev HookResp := ⟨.query e.op, e.resp⟩

/-- The outcomes of `connect` for which its hook installs an initiator. -/
def RealRet.Starts (r : RealRet) : Prop := r.ret = 0 ∨ (r.ret < 0 ∧ r.errno = EINPROGRESS)

instance (r : RealRet) : Decidable r.Starts := inferInstanceAs (Decidable (_ ∨ _))

/-- The descriptor that a hook looks at first. -/
def HookCall.fd : HookCall → Fd
  | .connect fd | .send fd _ _ | .sendto fd _ _ | .recv fd _ _ | .write fd _ | .read fd _
  | .writev fd _ _ | .readv fd _ _ | .sendmsg fd _ _ | .recvmsg fd _ _ | .sendmmsg fd _ _
  | .sendfile fd _ _ | .sendfile64 fd _ _ | .splice fd _ _ _ | .close fd => fd

/-- The hooks that adopt an unknown stream socket. -/
def HookCall.tracks : HookCall → Bool
  | .send _ _ _ | .recv _ _ _ | .write _ _ | .read _ _ | .writev _ _ _ | .readv _ _ _
  | .sendmsg _ _ _ | .recvmsg _ _ _ => true
  | _ => false

/-- The calls of a hook that leave the registry, the sessions' handles and the descriptors
as they are. -/
def HookOp.calm : HookOp → Bool
  | .insert _ _ | .orInsert _ _ | .remove _ | .real _ => false
  | _ => true

/-- The session call behind a call of a hook. -/
def HookOp.enters : HookOp → Option (Handle × FdCall)
  | .overlaySend h plaintext flags fuel => some (h, .send plaintext flags fuel)
  | .overlayRecv h len hlen flags fuel => some (h, .recv len hlen flags fuel)
  | _ => none

/-- `getsockopt` has denied that `fd` is a stream socket. -/
def Cleared (t : Trace HookResp) (fd : Fd) : Prop :=
  ∃ r, (⟨.soType fd, r⟩ : Ev HookResp) ∈ t ∧ r ≠ some sockStream

theorem Cleared.mono {t t' : Trace HookResp} {fd : Fd} (h : Cleared t fd) (ht : t <+: t') :
    Cleared t' fd := by
  obtain ⟨r, hmem, hr⟩ := h
  exact ⟨r, ht.subset hmem, hr⟩

/-- The calls of `ensure_tracked` before it builds a state for `fd`; `q` are the queries of
`failed_policy_suite`. -/
def adopting (fd : Fd) (q : Tr) : Trace HookResp :=
  [⟨.containsKey fd, false⟩, ⟨.soType fd, some sockStream⟩] ++ q.map queried ++
    [⟨.containsKey fd, false⟩]

/-- What a hook has done when it forwards its call. -/
structure Forwards (c : HookCall) (t : Trace HookResp) : Prop where
  cleared : ∀ fd ∈ c.passThrough.egress, Cleared t fd
  connect : ∀ fd, c = .connect fd → t = []
  close : ∀ fd, c = .close fd → t = [⟨.remove fd, ()⟩]

/-- An obligation that the hook `c` meets: it holds of the calls that change nothing, and of
each of the others after what the hook has done by then. A session is entered right after the
lookup that found it. -/
structure HookRule (P : Primitives) (inv : Obligation HookResp Unit) (c : HookCall) : Prop where
  calm : ∀ t o, o.calm = true → o.enters = none → inv.call t () o
  enter : ∀ t fd h c' o, o.enters = some (h, c') → inv.call (t ++ [⟨.lookup fd, some h⟩]) () o
  cut : ∀ t, inv.cut t ()
  real : ∀ t, Forwards c t → inv.call t () (.real c.passThrough)
  insert : ∀ fd r q st, c = .connect fd → r.Starts → At (newInitiatorState P ()) q (.done () st) →
    inv.call (⟨.real (.connect fd), r⟩ :: q.map queried) () (.insert fd st)
  orInsert : ∀ q q' suite st, c.tracks = true → At (newResponderState suite ()) q' (.done () st) →
    inv.call (adopting c.fd q ++ q'.map queried) () (.orInsert c.fd st)
  remove : ∀ fd, c = .close fd → inv.call [] () (.remove fd)

/-- A tracking hook forwards bytes to its own descriptor, if to any. -/
theorem HookCall.egress_of_tracks (c : HookCall) (h : c.tracks = true) :
    c.passThrough.egress ⊆ [c.fd] := by
  cases c with
  | connect | sendto | sendmmsg | sendfile | sendfile64 | splice | close => cases h
  | _ => simp [passThrough, RealCall.egress, HookCall.fd]

theorem forwards_of_cleared {c : HookCall} {t : Trace HookResp}
    (hsub : c.passThrough.egress ⊆ [c.fd]) (hconnect : ∀ fd, c ≠ .connect fd)
    (hclose : ∀ fd, c ≠ .close fd) (hc : Cleared t c.fd) : Forwards c t := by
  refine ⟨fun fd hmem => ?_, fun fd heq => absurd heq (hconnect fd),
    fun fd heq => absurd heq (hclose fd)⟩
  rw [List.mem_singleton.mp (hsub hmem)]
  exact hc

section
variable {P : Primitives} {inv : Obligation HookResp Unit} {c : HookCall} {t : Trace HookResp}
  {α : Type}

theorem asQueries_safe (h : HookRule P inv c) {Q : Trace HookResp → Unit → α → Prop}
    {root p : Prog Resp Unit α} {q : Tr} (hp : At root q p)
    (hQ : ∀ q' a, At root q' (.done () a) → Q (t ++ q'.map queried) () a) :
    Safe inv Q (asQueries p) (t ++ q.map queried) := by
  induction p generalizing q with
  | done s a => exact hQ q a hp
  | cut s => exact h.cut _
  | call s o k ih =>
    refine ⟨h.calm _ _ rfl rfl, fun r => ?_⟩
    have hk := ih r (hp.step r)
    simpa [queried] using hk

theorem building_safe (h : HookRule P inv c) {m : Act Resp Unit α}
    {Q : Trace HookResp → Unit → α → Prop}
    (hQ : ∀ q a, At (m ()) q (.done () a) → Q (t ++ q.map queried) () a) :
    Safe inv Q (building m ()) t := by
  have hsafe : Safe inv Q (asQueries (m ())) (t ++ ([] : Tr).map queried) :=
    asQueries_safe h At.refl hQ
  simpa [building] using hsafe

theorem isStreamSocket_safe (h : HookRule P inv c) {fd : Fd}
    {Q : Trace HookResp → Unit → Bool → Prop}
    (hyes : Q (t ++ [⟨.soType fd, some sockStream⟩]) () true)
    (hno : ∀ r, r ≠ some sockStream → Q (t ++ [⟨.soType fd, r⟩]) () false) :
    Safe inv Q (isStreamSocket fd ()) t := by
  refine ⟨h.calm _ _ rfl rfl, fun r => ?_⟩
  cases r with
  | none => exact hno none (by simp)
  | some stype =>
    by_cases hs : stype = sockStream
    · simpa [hs] using hyes
    · have hb : (stype == sockStream) = false := beq_false_of_ne hs
      simpa [hb] using hno (some stype) (by simpa using hs)

theorem forward_safe (h : HookRule P inv c) (hf : Forwards c t) :
    Safe inv (fun _ _ _ => True) (forward c ()) t :=
  ⟨h.real t hf, fun _ => trivial⟩

theorem blocked_safe (h : HookRule P inv c) {fd : Fd} {m : HookAct HookRet}
    (hm : ∀ t', t <+: t' → Cleared t' fd → Safe inv (fun _ _ _ => True) (m ()) t') :
    Safe inv (fun _ _ _ => True) (blocked fd m ()) t := by
  rw [blocked, blockStreamEgress]
  refine safe_bind (safe_bind (isStreamSocket_safe h ?_ ?_))
  · exact ⟨h.calm _ _ rfl rfl, fun _ => trivial⟩
  · intro r hr
    exact hm _ (List.prefix_append _ _) ⟨r, by simp, hr⟩

theorem ensureTracked_safe (h : HookRule P inv c) (htr : c.tracks = true)
    {Q : Trace HookResp → Unit → Bool → Prop}
    (hyes : ∀ t', Q t' () true) (hno : ∀ t', Cleared t' c.fd → Q t' () false) :
    Safe inv Q (ensureTracked c.fd ()) [] := by
  simp only [ensureTracked, bind_apply, perform_apply, bind_call, bind_done, safe_call]
  refine ⟨h.calm _ _ rfl rfl, fun known => ?_⟩
  cases known with
  | true => exact hyes _
  | false =>
    refine safe_bind (isStreamSocket_safe h ?_ ?_)
    · refine safe_bind (building_safe h fun q suite _ => ?_)
      simp only [bind_apply, perform_apply, bind_call, bind_done, safe_call]
      refine ⟨h.calm _ _ rfl rfl, fun known' => ?_⟩
      cases known' with
      | true => exact hyes _
      | false =>
        refine safe_bind (building_safe h fun q' st hst => ?_)
        exact ⟨h.orInsert q q' suite st htr hst, fun _ => hyes _⟩
    · intro r hr
      exact hno _ ⟨r, by simp, hr⟩

theorem tracked_safe (h : HookRule P inv c) (htr : c.tracks = true) {m : HookAct HookRet}
    (hm : ∀ t', Safe inv (fun _ _ _ => True) (m ()) t') :
    Safe inv (fun _ _ _ => True) (tracked c.fd c m ()) [] := by
  rw [tracked, bind_apply]
  refine safe_bind (ensureTracked_safe h htr (fun t' => hm t') fun t' hc => forward_safe h ?_)
  exact forwards_of_cleared (c.egress_of_tracks htr) (by rintro fd rfl; cases htr)
    (by rintro fd rfl; cases htr) hc

theorem hookSend_safe (h : HookRule P inv c) {fuel : ℕ} {fd : Fd} {plaintext : Bytes}
    {flags : Flags} : Safe inv (fun _ _ _ => True) (hookSend fuel fd plaintext flags ()) t := by
  refine ⟨h.calm _ _ rfl rfl, fun found => ?_⟩
  cases found with
  | none => trivial
  | some hd =>
    refine ⟨h.enter _ _ hd _ _ rfl, fun r => ?_⟩
    cases r <;> trivial

theorem hookRecv_safe (h : HookRule P inv c) {fuel : ℕ} {fd : Fd} {null : Bool} {len : ℕ}
    {flags : Flags} : Safe inv (fun _ _ _ => True) (hookRecv fuel fd null len flags ()) t := by
  unfold hookRecv
  split
  · split
    · trivial
    · refine ⟨h.calm _ _ rfl rfl, fun found => ?_⟩
      cases found with
      | none => trivial
      | some hd => exact ⟨h.enter _ _ hd _ _ rfl, fun _ => trivial⟩
  · trivial

theorem overlayWriteIov_safe (h : HookRule P inv c) {fuel : ℕ} {fd : Fd} {iov : IoVec} {iovcnt : ℕ}
    {flags : Flags} :
    Safe inv (fun _ _ _ => True) (overlayWriteIov fuel fd iov iovcnt flags ()) t := by
  unfold overlayWriteIov
  cases gatherIov iov iovcnt with
  | none => trivial
  | some gathered =>
    cases gathered with
    | ok data => exact hookSend_safe h
    | error e => trivial

theorem overlayReadIov_safe (h : HookRule P inv c) {fuel : ℕ} {fd : Fd} {iov : IoVec} {iovcnt : ℕ}
    {flags : Flags} :
    Safe inv (fun _ _ _ => True) (overlayReadIov fuel fd iov iovcnt flags ()) t := by
  unfold overlayReadIov
  cases iovTotal iov iovcnt with
  | error e => trivial
  | ok total =>
    dsimp only
    split
    · trivial
    · refine safe_bind (safe_mono ?_ (hookRecv_safe h))
      intro t' _ r _
      cases r with
      | error e => trivial
      | ok tmp =>
        dsimp only
        cases scatterIov iov iovcnt tmp <;> trivial

/-- Every hook meets every obligation that follows the rule. -/
theorem HookCall.body_safe (h : HookRule P inv c) (fuel : ℕ) :
    Safe inv (fun _ _ _ => True) (c.body P fuel ()) [] := by
  have hrecv : ∀ fd null len flags t', Safe inv (fun _ _ _ => True)
      ((do let r ← hookRecv fuel fd null len flags; pure (received r) : HookAct HookRet) ()) t' :=
    fun fd null len flags t' => safe_bind (safe_mono (fun _ _ _ _ => trivial) (hookRecv_safe h))
  have hsend : ∀ fd buf flags t', Safe inv (fun _ _ _ => True)
      ((match inputSlice buf with
        | .ok plaintext => hookSend fuel fd plaintext flags
        | .error e => pure (.error e) : HookAct HookRet) ()) t' := by
    intro fd buf flags t'
    cases inputSlice buf with
    | ok plaintext => exact hookSend_safe h
    | error e => trivial
  cases c with
  | connect fd =>
    have hf : Forwards (.connect fd) [] :=
      ⟨fun fd' hmem => (by cases hmem), fun _ _ => rfl, fun _ heq => (by cases heq)⟩
    refine ⟨h.real [] hf, fun res => ?_⟩
    simp only [bind_done]
    split
    case isTrue hres =>
      refine safe_bind (safe_bind (building_safe h fun q st hst => ?_))
      exact ⟨h.insert fd res q st rfl hres hst, fun _ => trivial⟩
    case isFalse => trivial
  | send fd buf flags => exact tracked_safe h rfl fun t' => hsend fd buf flags t'
  | recv fd buf flags => exact tracked_safe h rfl fun t' => hrecv fd _ _ _ t'
  | write fd buf => exact tracked_safe h rfl fun t' => hsend fd buf 0 t'
  | read fd buf => exact tracked_safe h rfl fun t' => hrecv fd _ _ _ t'
  | writev fd iov iovcnt =>
    simp only [HookCall.body]
    split
    · trivial
    · exact tracked_safe h rfl fun t' => overlayWriteIov_safe h
  | readv fd iov iovcnt =>
    simp only [HookCall.body]
    split
    · trivial
    · exact tracked_safe h rfl fun t' => overlayReadIov_safe h
  | sendmsg fd msg flags =>
    simp only [HookCall.body]
    split
    · trivial
    · exact tracked_safe h rfl fun t' => overlayWriteIov_safe h
  | recvmsg fd msg flags =>
    simp only [HookCall.body]
    split
    · trivial
    · exact tracked_safe h rfl fun t' => overlayReadIov_safe h
  | sendto fd buf flags | sendmmsg fd vlen flags | sendfile fd inFd count
  | sendfile64 fd inFd count =>
    refine blocked_safe h fun t' _ hc => forward_safe h ?_
    exact forwards_of_cleared (by simp [passThrough, RealCall.egress, HookCall.fd]) (by simp)
      (by simp) hc
  | splice fdIn fdOut len flags =>
    refine blocked_safe h fun t' _ hin => blocked_safe h fun t'' ht hout => forward_safe h ?_
    refine ⟨fun fd hmem => ?_, fun _ heq => (by cases heq), fun _ heq => (by cases heq)⟩
    rcases List.mem_cons.mp hmem with rfl | hmem
    · exact hin.mono ht
    · rw [List.mem_singleton.mp hmem]
      exact hout
  | close fd =>
    refine ⟨h.remove fd rfl, fun _ => forward_safe h ?_⟩
    refine ⟨fun fd' hmem => (by cases hmem), fun _ heq => (by cases heq), fun fd' heq => ?_⟩
    cases heq
    rfl

end

/-- The state `st` was built by `connect`, with the last queries of the trace. -/
def BuiltInitiator (P : Primitives) (t : Trace HookResp) (st : FdState) : Prop :=
  ∃ pre c, t = pre ++ c.map queried ∧ At (newInitiatorState P ()) c (.done () st)

/-- The state `st` was built by `ensure_tracked`, with the last queries of the
trace. -/
def BuiltResponder (t : Trace HookResp) (st : FdState) : Prop :=
  ∃ pre c suite, t = pre ++ c.map queried ∧ At (newResponderState suite ()) c (.done () st)

/-- What holds in a thread with interposition when it makes the call `o`: a state
it registers was built as the source does, and a real call that could carry bytes
to a descriptor comes after `getsockopt` denied that it is a stream socket. -/
def hookInv (P : Primitives) : Obligation HookResp Unit where
  call t _ o :=
    match o with
    | .insert _ st => BuiltInitiator P t st
    | .orInsert _ st => BuiltResponder t st
    | .real c => ∀ fd ∈ c.egress, ∃ r, (⟨.soType fd, r⟩ : Ev HookResp) ∈ t ∧ r ≠ some sockStream
    | _ => True
  cut _ _ := True

theorem hookInv_rule (P : Primitives) (c : HookCall) : HookRule P (hookInv P) c where
  calm := fun t o ho _ => by cases o <;> trivial
  enter := fun t fd h c' o ho => by cases o <;> trivial
  cut := fun _ => trivial
  real := fun _ hf => hf.cleared
  insert := fun fd r q st _ _ hst => ⟨[_], q, rfl, hst⟩
  orInsert := fun q q' suite st _ hst => ⟨_, q', suite, rfl, hst⟩
  remove := fun _ _ => trivial

end SyntriassOverlay

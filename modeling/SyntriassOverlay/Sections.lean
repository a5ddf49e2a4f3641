import SyntriassOverlay.Locking
import SyntriassOverlay.Lib.Refinement
import SyntriassOverlay.Crypto.Specimen

/-!
# The hooks behind the locks (interceptor.rs:449-504, 598-780)

A hook with its critical sections taken apart does what the hook of `Hooks` does. Of its trace the
locks, the hooks that the library calls itself and the steps inside of a session are left out; a
call of a session is seen when it returns. What is left is a trace of the hook without locks.

What is true of every call, whatever it is answered, is followed through the functions once, for
any condition on the calls: that nothing is seen of the hooks in between is one case of it, that a
session gives the results of its own functions is another.
-/

namespace SyntriassOverlay
namespace Locking
open Crypto Resumption

/-! ### What belongs to the hook itself -/

def asHook : Ev LockResp → List (Ev HookResp)
  | ⟨.hook false o, r⟩ => [⟨o, r⟩]
  | ⟨.release false _ e, _⟩ => [e]
  | _ => []

def hookTrace (t : LockTr) : Trace HookResp := t.flatMap asHook

def LockOp.inner : LockOp → Bool
  | .hook _ _ | .release _ _ _ => false
  | _ => true

theorem unseen_inner {o : LockOp} (h : o.inner = true) : Unseen asHook o := by
  intro r
  cases o with
  | hook | release => cases h
  | _ => rfl

/-- The result of a session's call is one that the session's function has for some state. -/
def Returned (P : Primitives) : Ev HookResp → Prop
  | ⟨.overlaySend _ plaintext flags n, a⟩ =>
    ∃ st u s, At (overlaySend P plaintext flags n st) u (.done s a)
  | ⟨.overlayRecv _ len _ flags n, a⟩ => ∃ st u s, At (overlayRecv P len flags n st) u (.done s a)
  | _ => True

/-- What is true of all calls of a hook: of its own ones, of those that end a call of a session,
and of those in between. -/
structure LockRule (P : Primitives) (nested : Bool) (ok : LockOp → Prop) : Prop where
  hook : ∀ o, o.enters = none → ok (.hook nested o)
  release : ∀ hd e, Returned P e → ok (.release nested hd e)
  inner : ∀ {o}, o.inner = true → ok o

variable {α : Type} {ok : LockOp → Prop} {fuel : ℕ} {io : HookCall → LockAct HookRet}

section
variable (hin : ∀ {o : LockOp}, o.inner = true → ok o)
include hin

theorem withLock_every {x : Mutex} {m : LockAct α} (hm : Every ok m) :
    Every ok (withLock x m) := by
  apply every_bind (every_perform (hin rfl))
  intro _
  apply every_bind hm
  intro a
  apply every_bind (every_perform (hin rfl))
  intro _
  exact every_pure a

theorem force_every {c : Cell} {init : LockAct Unit} (hinit : Every ok init) :
    Every ok (force c init) := by
  apply every_bind (every_perform (hin rfl))
  intro first
  cases first with
  | true => exact every_bind hinit fun _ => every_perform (hin rfl)
  | false => exact every_pure ()

variable (hio : ∀ c, Every ok (io c))
include hio

theorem repeatedly_every (c : HookCall) : Every ok (repeatedly fuel io c) := by
  apply every_iter
  intro _
  apply every_bind (hio c)
  intro _
  apply every_bind (every_perform (hin rfl))
  intro more
  cases more with
  | true => exact every_pure _
  | false => exact every_pure _

theorem eprintln_every (text : String) : Every ok (eprintln fuel io text) :=
  withLock_every hin (repeatedly_every hin hio _)

theorem forceRegistry_every : Every ok (force .registry (startConfigHotReloader fuel io)) := by
  apply force_every hin
  apply every_bind (every_perform (hin rfl))
  intro spawned
  cases spawned with
  | true => exact every_pure ()
  | false => exact eprintln_every hin hio _

theorem lockRegistry_every {m : LockAct α} (hm : Every ok m) :
    Every ok (lockRegistry fuel io m) :=
  every_bind (forceRegistry_every hin hio) fun _ => withLock_every hin hm

theorem readToString_every : Every ok (readToString fuel io) := by
  apply every_bind (every_perform (hin rfl))
  intro found
  cases found with
  | none => exact every_pure ()
  | some fd =>
    apply every_bind (repeatedly_every hin hio _)
    intro _
    apply every_bind (hio _)
    intro _
    exact every_pure ()

theorem forceConfig_every : Every ok (force .config (loadRuntimeConfig fuel io)) := by
  apply force_every hin
  apply every_bind (readToString_every hin hio)
  intro _
  apply every_bind (every_perform (hin rfl))
  intro fromEnv
  cases fromEnv with
  | true => exact every_pure ()
  | false => exact readToString_every hin hio

theorem report_every (text : Option String) : Every ok (report fuel io text) := by
  cases text with
  | none => exact every_pure ()
  | some text => exact eprintln_every hin hio text

theorem guarded_every {o : Op} {answer : LockAct (Resp o)} (ha : Every ok answer) :
    Every ok (guarded fuel io o answer) := by
  unfold guarded
  split
  · apply every_bind (forceConfig_every hin hio)
    intro _
    apply every_bind (every_perform (hin rfl))
    intro n
    apply every_bind ha
    intro a
    apply every_bind (every_perform (hin rfl))
    intro _
    exact every_pure a
  · exact every_bind (report_every hin hio _) fun _ => ha

/-- A call of a session returns what the session's function returns. -/
theorem inSession_returns (hd : Handle) (p : Prog Resp FdState α) (t : LockTr) :
    Safe ⟨fun _ _ o => ok o, fun _ _ => True⟩ (fun _ _ a => ∃ u s, At p u (.done s a))
      (inSession fuel io hd p) t := by
  induction p generalizing t with
  | done s a => exact ⟨[], s, .refl⟩
  | cut s => trivial
  | call s o k ih =>
    apply safe_bind
    apply safe_mono _ (guarded_every hin hio (every_perform (hin rfl)) () t)
    intro t' _ r _
    apply safe_mono _ (ih r t')
    intro _ _ a hret
    obtain ⟨u, s', hu⟩ := hret
    exact ⟨⟨o, r⟩ :: u, s', .head hu⟩

end

section
variable {P : Primitives} {nested : Bool} (h : LockRule P nested ok) (hio : ∀ c, Every ok (io c))
include h hio

theorem asking_every (p : Prog Resp Unit α) :
    Every ok (fun _ => asking fuel io nested p : LockAct α) := by
  induction p with
  | done s a => exact every_pure a
  | cut s => exact fun _ _ => trivial
  | call s o k ih =>
    exact every_bind (guarded_every h.inner hio (every_perform (h.hook _ rfl))) ih

theorem ask_every (m : Act Resp Unit α) : Every ok (ask fuel io nested m) :=
  fun s => asking_every h hio (m s) s

theorem serve_every (hd : Handle) (o : HookOp) (m : FdAct (HookResp o))
    (hret : ∀ st u s a, At (m st) u (.done s a) → Returned P ⟨o, a⟩) :
    Every ok (serve fuel io nested hd o m) := by
  apply every_bind (every_perform (h.inner rfl))
  intro _
  apply every_bind (every_perform (h.inner rfl))
  intro st _ t
  apply safe_bind
  apply safe_mono _ (inSession_returns h.inner hio hd (m st) t)
  intro _ _ a hdone
  obtain ⟨u, s, hu⟩ := hdone
  exact ⟨h.release hd _ (hret st u s a hu), fun _ => trivial⟩

theorem hookOp_every (o : HookOp) : Every ok (hookOp fuel io P nested o) := by
  cases o with
  | containsKey | lookup | insert | orInsert | remove =>
    exact lockRegistry_every h.inner hio (every_perform (h.hook _ rfl))
  | query o => exact guarded_every h.inner hio (every_perform (h.hook _ rfl))
  | overlaySend | overlayRecv =>
    exact serve_every h hio _ _ _ fun st u s a hu => ⟨st, u, s, hu⟩
  | soType | blockedBypassAttempt | real => exact every_perform (h.hook _ rfl)

theorem lowered_every (p : Prog HookResp Unit α) :
    Every ok (fun _ => lowered fuel io P nested p : LockAct α) := by
  induction p with
  | done s a => exact every_pure a
  | cut s => exact fun _ _ => trivial
  | call s o k ih => exact every_bind (hookOp_every h hio o) ih

theorem lower_every (m : HookAct α) : Every ok (lower fuel io P nested m) :=
  fun s => lowered_every h hio (m s) s

theorem ensureTracked_every (fd : Fd) : Every ok (ensureTracked fuel io nested fd) := by
  apply every_bind (lockRegistry_every h.inner hio (every_perform (h.hook _ rfl)))
  intro known
  cases known with
  | true => exact every_pure true
  | false =>
    apply every_bind (every_perform (h.hook _ rfl))
    intro stype
    split
    · exact every_pure false
    · apply every_bind (ask_every h hio _)
      intro suite
      apply every_bind
      · apply lockRegistry_every h.inner hio
        apply every_bind (every_perform (h.hook _ rfl))
        intro known
        cases known with
        | true => exact every_pure ()
        | false => exact every_bind (ask_every h hio _) fun _ => every_perform (h.hook _ rfl)
      · intro _
        exact every_pure true

theorem connect_every (fd : Fd) : Every ok (connect fuel io P nested fd) := by
  apply every_bind (every_perform (h.hook _ rfl))
  intro res
  split
  · apply every_bind (ask_every h hio _)
    intro st
    apply every_bind (lockRegistry_every h.inner hio (every_perform (h.hook _ rfl)))
    intro _
    exact every_pure _
  · exact every_pure _

theorem trackingHook_every (c : HookCall) : Every ok (trackingHook P fuel io nested c) := by
  unfold trackingHook
  cases refusal c with
  | some e => exact every_pure _
  | none =>
    apply every_bind (ensureTracked_every h hio _)
    intro known
    cases known with
    | true => exact lower_every h hio _
    | false => exact lower_every h hio _

theorem hookCall_every (interpositionEnabled : Bool) (c : HookCall) :
    Every ok (hookCall P fuel interpositionEnabled io nested c) := by
  cases interpositionEnabled with
  | false => exact lower_every h hio _
  | true =>
    obtain htr | ⟨fd, rfl⟩ | ⟨htr, hne⟩ := hookCall_kinds c
    · rw [hookCall_tracking htr]
      exact trackingHook_every h hio c
    · exact connect_every h hio fd
    · rw [hookCall_other htr hne]
      exact lower_every h hio _

end

theorem interposed_every {P : Primitives} (h : LockRule P true ok) (fuel : ℕ)
    (interpositionEnabled : Bool) (depth : ℕ) (c : HookCall) :
    Every ok (interposed P fuel interpositionEnabled depth c) := by
  induction depth generalizing c with
  | zero => exact fun _ _ => trivial
  | succ depth ih => exact hookCall_every h ih interpositionEnabled c

/-- The hooks that the library calls itself leave nothing in the trace of the hook. -/
theorem unseen_rule (P : Primitives) : LockRule P true (Unseen asHook) where
  hook _ _ _ := rfl
  release _ _ _ _ := rfl
  inner := unseen_inner

/-- The calls of a session are made under its lock, and return what its functions return. -/
def Honest (P : Primitives) : LockOp → Prop
  | .hook _ o => o.enters = none
  | .release _ _ e => Returned P e
  | _ => True

theorem honest_rule (P : Primitives) (nested : Bool) : LockRule P nested (Honest P) where
  hook _ ho := ho
  release _ _ hret := hret
  inner {o} ho := by
    cases o with
    | hook | release => cases ho
    | _ => trivial

theorem Honest.returned {P : Primitives} {e : Ev LockResp} (h : Honest P e.op) {e' : Ev HookResp}
    (he : e' ∈ asHook e) : Returned P e' := by
  obtain ⟨o, r⟩ := e
  cases o with
  | hook nested o =>
    cases nested with
    | true => cases he
    | false =>
      cases List.mem_singleton.mp he
      cases o with
      | overlaySend | overlayRecv => cases h
      | _ => trivial
  | release nested hd e =>
    cases nested with
    | true => cases he
    | false =>
      cases List.mem_singleton.mp he
      exact h
  | _ => cases he

/-! ### The hook itself -/

theorem hook_follows (o : HookOp) :
    Refines asHook (perform (LockOp.hook false o) : LockAct (HookResp o))
      (perform o : HookAct (HookResp o)) :=
  fun _ s (r : HookResp o) => ⟨_, at_perform o r s, s, rfl⟩

theorem isStreamSocket_bind (fd : Fd) (f : Bool → HookAct α) :
    isStreamSocket fd >>= f =
      perform (HookOp.soType fd) >>= fun stype => f (decide (stype = some sockStream)) := by
  unfold isStreamSocket
  rw [Act.bind_assoc]
  congr 1
  funext stype
  cases stype with
  | none => rfl
  | some n =>
    change f (n == sockStream) = f (decide (some n = some sockStream))
    simp only [Option.some.injEq, beq_eq_decide]

/-- The entry in an expression of its own, as `or_insert_with` has it. -/
theorem orInsertWith_bind (fd : Fd) (m : HookAct FdState) :
    (do
      if ← perform (HookOp.containsKey fd) then pure true
      else
        let st ← m
        perform (HookOp.orInsert fd st)
        pure true : HookAct Bool) =
    (do
      if ← perform (HookOp.containsKey fd) then pure ()
      else
        let st ← m
        perform (HookOp.orInsert fd st) : HookAct Unit) >>= fun _ => pure true := by
  rw [Act.bind_assoc]
  congr 1
  funext known
  cases known with
  | true => rfl
  | false => exact (Act.bind_assoc m _ _).symm

theorem withLock_follows {x : Mutex} {m : LockAct α} {p : HookAct α} (h : Refines asHook m p) :
    Refines asHook (withLock x m) p := by
  apply refines_after (every_perform (unseen_inner rfl))
  intro _
  apply refines_before h
  intro a
  apply refines_after (every_perform (unseen_inner rfl))
  intro _
  exact refines_pure a

section
variable (hio : ∀ c, Every (Unseen asHook) (io c))
include hio

theorem lockRegistry_follows {m : LockAct α} {p : HookAct α} (h : Refines asHook m p) :
    Refines asHook (lockRegistry fuel io m) p :=
  refines_after (forceRegistry_every unseen_inner hio) fun _ => withLock_follows h

theorem guarded_follows {o : Op} {answer : LockAct (Resp o)} {p : HookAct (Resp o)}
    (h : Refines asHook answer p) : Refines asHook (guarded fuel io o answer) p := by
  unfold guarded
  split
  · apply refines_after (forceConfig_every unseen_inner hio)
    intro _
    apply refines_after (every_perform (unseen_inner rfl))
    intro n
    apply refines_before h
    intro a
    apply refines_after (every_perform (unseen_inner rfl))
    intro _
    exact refines_pure a
  · exact refines_after (report_every unseen_inner hio _) fun _ => h

theorem asking_follows (p : Prog Resp Unit α) :
    Refines asHook (fun _ => asking fuel io false p : LockAct α)
      (fun _ => asQueries p : HookAct α) := by
  induction p with
  | done s a => exact refines_pure a
  | cut s => exact fun _ _ => trivial
  | call s o k ih => exact refines_bind (guarded_follows hio (hook_follows (.query o))) ih

theorem ask_follows (m : Act Resp Unit α) :
    Refines asHook (ask fuel io false m) (building m) :=
  fun s => asking_follows hio (m s) s

theorem inSession_every (h : Handle) (p : Prog Resp FdState α) :
    Every (Unseen asHook) (fun _ => inSession fuel io h p : LockAct α) :=
  fun _ t => safe_mono (fun _ _ _ _ => trivial) (inSession_returns unseen_inner hio h p t)

/-- A call of a session is seen when it returns. -/
theorem serve_follows (h : Handle) (o : HookOp) (m : FdAct (HookResp o)) :
    Refines asHook (serve fuel io false h o m) (perform o : HookAct (HookResp o)) := by
  apply refines_after (every_perform (unseen_inner rfl))
  intro _
  apply refines_after (every_perform (unseen_inner rfl))
  intro st
  apply refines_after (inSession_every hio h (m st))
  intro a
  exact fun _ s _ => ⟨_, at_perform o a s, s, rfl⟩

variable (P : Primitives)

theorem hookOp_follows (o : HookOp) :
    Refines asHook (hookOp fuel io P false o) (perform o : HookAct (HookResp o)) := by
  cases o with
  | containsKey | lookup | insert | orInsert | remove =>
    exact lockRegistry_follows hio (hook_follows _)
  | query o => exact guarded_follows hio (hook_follows _)
  | overlaySend | overlayRecv => exact serve_follows hio _ _ _
  | soType | blockedBypassAttempt | real => exact hook_follows _

theorem lowered_follows (p : Prog HookResp Unit α) :
    Refines asHook (fun _ => lowered fuel io P false p : LockAct α) (fun _ => p : HookAct α) := by
  induction p with
  | done s a => exact refines_pure a
  | cut s => exact fun _ _ => trivial
  | call s o k ih => exact refines_bind (hookOp_follows hio P o) ih

theorem lower_follows (m : HookAct α) : Refines asHook (lower fuel io P false m) m :=
  fun s => lowered_follows hio P (m s) s

/-- The entry is looked up and filled under one lock, which the hook does not see. -/
theorem ensureTracked_follows (fd : Fd) :
    Refines asHook (ensureTracked fuel io false fd) (SyntriassOverlay.ensureTracked fd) := by
  apply refines_bind (lockRegistry_follows hio (hook_follows _))
  intro known
  cases known with
  | true => exact refines_pure true
  | false =>
    simp only [Bool.false_eq_true, if_false, isStreamSocket_bind]
    apply refines_bind (hook_follows _)
    intro stype
    by_cases hstype : stype = some sockStream
    · simp only [hstype, ne_eq, not_true_eq_false, if_false, decide_true, Bool.not_true,
        Bool.false_eq_true]
      apply refines_bind (ask_follows hio _)
      intro suite
      rw [orInsertWith_bind]
      apply refines_bind
      · apply lockRegistry_follows hio
        apply refines_bind (hook_follows _)
        intro known
        cases known with
        | true => exact refines_pure ()
        | false => exact refines_bind (ask_follows hio _) fun _ => hook_follows _
      · intro _
        exact refines_pure true
    · simp only [hstype, ne_eq, not_false_eq_true, if_true, decide_false, Bool.not_false]
      exact refines_pure false

theorem connect_follows (fd : Fd) :
    Refines asHook (connect fuel io P false fd) (hookConnect P fd) := by
  apply refines_bind (hook_follows _)
  intro res
  by_cases h : res.Starts
  · have hret : res.ret = 0 ∨ (res.ret < 0 ∧ res.errno = EINPROGRESS) := h
    rw [if_pos h, if_pos hret, installInitiatorState, Act.bind_assoc]
    apply refines_bind (ask_follows hio _)
    intro st
    apply refines_bind (lockRegistry_follows hio (hook_follows _))
    intro _
    exact refines_pure _
  · have hret : ¬ (res.ret = 0 ∨ (res.ret < 0 ∧ res.errno = EINPROGRESS)) := h
    rw [if_neg h, if_neg hret]
    exact refines_pure _

/-- What a tracking hook does once its arguments are accepted. -/
theorem tracked_follows (c : HookCall) (m : HookAct HookRet) :
    Refines asHook
      (do
        if ← ensureTracked fuel io false c.fd then lower fuel io P false m
        else lower fuel io P false (forward c))
      (tracked c.fd c m) := by
  apply refines_bind (ensureTracked_follows hio c.fd)
  intro known
  cases known with
  | true => exact lower_follows hio P m
  | false => exact lower_follows hio P (forward c)

end

section
variable (P : Primitives)

theorem body_of_refusal {c : HookCall} {e : Errno} (h : refusal c = some e) :
    c.body P fuel = pure (.error e) := by
  cases c with
  | writev fd iov iovcnt | readv fd iov iovcnt =>
    by_cases hneg : iovcnt < 0
    · rw [refusal, if_pos hneg] at h
      cases h
      exact if_pos hneg
    · rw [refusal, if_neg hneg] at h
      cases h
  | sendmsg fd msg flags | recvmsg fd msg flags =>
    cases msg with
    | none =>
      cases h
      rfl
    | some msg => cases h
  | _ => cases h

theorem body_of_tracks {c : HookCall} (htr : c.tracks = true) (h : refusal c = none) :
    c.body P fuel = tracked c.fd c (served fuel c) := by
  cases c with
  | connect | sendto | sendmmsg | sendfile | sendfile64 | splice | close => cases htr
  | writev fd iov iovcnt | readv fd iov iovcnt =>
    by_cases hneg : iovcnt < 0
    · rw [refusal, if_pos hneg] at h
      cases h
    · exact if_neg hneg
  | sendmsg fd msg flags | recvmsg fd msg flags =>
    cases msg with
    | none => cases h
    | some msg => rfl
  | send | recv | write | read => rfl

end

theorem hookCall_follows (hio : ∀ c, Every (Unseen asHook) (io c)) (P : Primitives)
    (interpositionEnabled : Bool) (c : HookCall) :
    Refines asHook (hookCall P fuel interpositionEnabled io false c)
      (c.run P fuel interpositionEnabled) := by
  cases interpositionEnabled with
  | false => exact lower_follows hio P (forward c)
  | true =>
    change Refines asHook _ (c.body P fuel)
    obtain htr | ⟨fd, rfl⟩ | ⟨htr, hne⟩ := hookCall_kinds c
    · rw [hookCall_tracking htr, trackingHook]
      cases hrefuse : refusal c with
      | some e =>
        rw [body_of_refusal P hrefuse]
        exact refines_pure _
      | none =>
        rw [body_of_tracks P htr hrefuse]
        exact tracked_follows hio P c (served fuel c)
    · exact connect_follows hio P fd
    · rw [hookCall_other htr hne]
      exact lower_follows hio P _

/-- A write on a session of the parent process. -/
def inheritedWrite : LockTr :=
  [⟨.force .registry, false⟩, ⟨.lock .registry, ()⟩, ⟨.hook false (.containsKey 5), true⟩,
    ⟨.unlock .registry, ()⟩, ⟨.force .registry, false⟩, ⟨.lock .registry, ()⟩,
    ⟨.hook false (.lookup 5), some 0⟩, ⟨.unlock .registry, ()⟩, ⟨.lock (.session 0), ()⟩,
    ⟨.sessionState 0, ⟨.failed, 0, .nistStandard768, 0, [], [], [], false⟩⟩,
    ⟨.onSession 0 .getpid, (1 : ℕ)⟩, ⟨.onSession 0 (.note (.failClosed .inheritedAfterFork)), ()⟩,
    ⟨.release false 0 ⟨.overlaySend 0 [1] 0 0, .error EPIPE⟩, ()⟩]

end Locking
end SyntriassOverlay

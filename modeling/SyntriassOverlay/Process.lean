import SyntriassOverlay.Opening
import SyntriassOverlay.Hooks

/-!
# A process with interposed functions

The threads of a process run the hooks of `Hooks` against the shared registry
and the sessions in it. A session is entered by one thread at a time: its lock is
held from the moment `overlay_send` or `overlay_recv` starts to its return, over
all the calls it makes in between. The thread that reloads the configuration may
take the lock of an idle session as well.

The kernel answers as it likes, except that `getpid` returns the process' own
identifier.
-/

namespace SyntriassOverlay
open Crypto Resumption

abbrev Tid := ℕ

/-- Who holds the lock of a session; `gone` is a thread that did not survive a
fork. -/
inductive Holder where
  | thread (tid : Tid)
  | reloader
  | gone
  deriving DecidableEq

/-- One `FdState` of the registry with everything done on it in this process.
`birth` is the trace of the thread that built it. -/
structure Session where
  role : Role
  fd : Fd
  inherited : Bool
  birth : Trace HookResp
  start : FdState
  log : List (FdCall × FdRet)
  trace : Tr
  status : Status Resp FdCall FdState FdRet
  holder : Option Holder

/-- A session that was just put into the registry. -/
def Session.new (role : Role) (fd : Fd) (birth : Trace HookResp) (st : FdState) : Session where
  role := role
  fd := fd
  inherited := false
  birth := birth
  start := st
  log := []
  trace := []
  status := .idle st
  holder := none

structure Thread where
  call : HookCall
  fuel : ℕ
  trace : Trace HookResp
  prog : Prog HookResp Unit HookRet

structure Process where
  pid : Pid
  interpositionEnabled : Bool
  registry : Fd → Option Handle
  sessions : List Session
  threads : Tid → Option Thread
  finished : List Thread

def Process.initial (pid : Pid) (interpositionEnabled : Bool) : Process where
  pid := pid
  interpositionEnabled := interpositionEnabled
  registry := fun _ => none
  sessions := []
  threads := fun _ => none
  finished := []

namespace Process
variable (p : Process)

def addSession (fd : Fd) (se : Session) : Process :=
  { p with registry := Function.update p.registry fd (some p.sessions.length),
           sessions := p.sessions ++ [se] }

def setSession (h : Handle) (se : Session) : Process := { p with sessions := p.sessions.set h se }

def setThread (tid : Tid) (th : Option Thread) : Process :=
  { p with threads := Function.update p.threads tid th }

theorem setThread_self {p : Process} {tid : Tid} {th : Option Thread} :
    (p.setThread tid th).threads tid = th := Function.update_self _ _ _

end Process

/-- Answers of the kernel to a process with identifier `pid`. -/
def Answers (pid : Pid) : (o : Op) → Resp o → Prop
  | .getpid, r => r = pid
  | _, _ => True

/-- What a call of a hook does to the process, and what it is answered. The calls
that enter a session are not among them. -/
inductive Effect (p : Process) (birth : Trace HookResp) :
    (o : HookOp) → HookResp o → Process → Prop
  | containsKey (fd : Fd) : Effect p birth (.containsKey fd) (p.registry fd).isSome p
  | lookup (fd : Fd) : Effect p birth (.lookup fd) (p.registry fd) p
  | soType (fd : Fd) (r : Option ℕ) : Effect p birth (.soType fd) r p
  | query (o : Op) (r : Resp o) (hr : Answers p.pid o r) : Effect p birth (.query o) r p
  | insert (fd : Fd) (st : FdState) :
      Effect p birth (.insert fd st) () (p.addSession fd (.new .initiator fd birth st))
  | orInsertVacant (fd : Fd) (st : FdState) (h : p.registry fd = none) :
      Effect p birth (.orInsert fd st) () (p.addSession fd (.new .responder fd birth st))
  | orInsertOccupied (fd : Fd) (st : FdState) (h : p.registry fd ≠ none) :
      Effect p birth (.orInsert fd st) () p
  | remove (fd : Fd) :
      Effect p birth (.remove fd) () { p with registry := Function.update p.registry fd none }
  | blockedBypassAttempt : Effect p birth .blockedBypassAttempt () p
  | real (c : RealCall) (r : RealRet) : Effect p birth (.real c) r p

/-- The calls of a hook that enter a session, and what they give back. -/
inductive Enters : (o : HookOp) → Handle → FdCall → FdRet → HookResp o → Prop
  | send (h : Handle) (plaintext : Bytes) (flags : Flags) (fuel : ℕ) (r : Except Errno ℕ) :
      Enters (.overlaySend h plaintext flags fuel) h (.send plaintext flags fuel) (.sent r) r
  | recv (h : Handle) (len : ℕ) (hlen : 0 < len) (flags : Flags) (fuel : ℕ)
      (r : Except Errno Bytes) :
      Enters (.overlayRecv h len hlen flags fuel) h (.recv len hlen flags fuel) (.received r) r

/-- One step of a process. -/
inductive Process.Step (P : Primitives) (p : Process) : Process → Prop
  | call {tid : Tid} (htid : p.threads tid = none) (c : HookCall) (fuel : ℕ) :
      Step P p (p.setThread tid
        (some ⟨c, fuel, [], c.run P fuel p.interpositionEnabled ()⟩))
  | hook {tid : Tid} {th : Thread} {o : HookOp} {k : HookResp o → Prog HookResp Unit HookRet}
      {r : HookResp o} {p' : Process} (htid : p.threads tid = some th)
      (hprog : th.prog = .call () o k) (he : Effect p th.trace o r p') :
      Step P p (p'.setThread tid (some { th with trace := th.trace ++ [⟨o, r⟩], prog := k r }))
  | lock {tid : Tid} {th : Thread} {o : HookOp} {k : HookResp o → Prog HookResp Unit HookRet}
      {h : Handle} {c : FdCall} {a : FdRet} {r : HookResp o} {se : Session} {s : FdState}
      (htid : p.threads tid = some th) (hprog : th.prog = .call () o k) (he : Enters o h c a r)
      (hse : p.sessions[h]? = some se) (hidle : se.status = .idle s) (hfree : se.holder = none) :
      Step P p (p.setSession h
        { se with status := .busy c (c.run P s), holder := some (.thread tid) })
  | answer {h : Handle} {se : Session} {c : FdCall} {s : FdState} {o : Op}
      {k : Resp o → Prog Resp FdState FdRet} (hse : p.sessions[h]? = some se)
      (hbusy : se.status = .busy c (.call s o k)) (hholder : se.holder ≠ some .gone)
      (r : Resp o) (hr : Answers p.pid o r) :
      Step P p (p.setSession h
        { se with trace := se.trace ++ [⟨o, r⟩], status := .busy c (k r) })
  | unlock {tid : Tid} {th : Thread} {o : HookOp} {k : HookResp o → Prog HookResp Unit HookRet}
      {h : Handle} {c : FdCall} {a : FdRet} {r : HookResp o} {se : Session} {s : FdState}
      (htid : p.threads tid = some th) (hprog : th.prog = .call () o k) (he : Enters o h c a r)
      (hse : p.sessions[h]? = some se) (hdone : se.status = .busy c (.done s a))
      (hholder : se.holder = some (.thread tid)) :
      Step P p ((p.setSession h
        { se with log := se.log ++ [(c, a)], status := .idle s, holder := none }).setThread tid
          (some { th with trace := th.trace ++ [⟨o, r⟩], prog := k r }))
  | reloadLock {h : Handle} {se : Session} {s : FdState} (epoch : ℕ)
      (hse : p.sessions[h]? = some se) (hidle : se.status = .idle s) (hfree : se.holder = none) :
      Step P p (p.setSession h
        { se with status := .busy (.retire epoch) ((FdCall.retire epoch).run P s),
                  holder := some .reloader })
  | reloadUnlock {h : Handle} {se : Session} {c : FdCall} {s : FdState} {a : FdRet}
      (hse : p.sessions[h]? = some se) (hdone : se.status = .busy c (.done s a))
      (hholder : se.holder = some .reloader) :
      Step P p (p.setSession h
        { se with log := se.log ++ [(c, a)], status := .idle s, holder := none })
  | leave {tid : Tid} {th : Thread} {a : HookRet} (htid : p.threads tid = some th)
      (hprog : th.prog = .done () a) :
      Step P p { p.setThread tid none with finished := p.finished ++ [th] }

/-- Every state a process that starts as `p₀` can get into. -/
inductive Process.Reachable (P : Primitives) (p₀ : Process) : Process → Prop
  | start : Reachable P p₀ p₀
  | step {p p' : Process} : Reachable P p₀ p → Process.Step P p p' → Reachable P p₀ p'

/-! ### What holds of every reachable process -/

/-- The calls that hooks and the reload thread make on a session. -/
def FdCall.hooked : FdCall → Bool
  | .send _ _ _ | .recv _ _ _ _ | .retire _ => true
  | _ => false

/-- The session runs as a session on its own would, from a state built by the
source's constructors. -/
structure Session.Ok (P : Primitives) (pid : Pid) (se : Session) : Prop where
  unlocked : se.holder = none → ∃ s, se.status = .idle s
  reach : se.holder ≠ some .gone → Reach (FdCall.run P) se.start se.log se.trace se.status
  log_hooked : ∀ e ∈ se.log, e.1.hooked = true
  busy_hooked : ∀ c p, se.status = .busy c p → c.hooked = true
  getpid : ∀ r, (⟨.getpid, r⟩ : Ev Resp) ∈ se.trace → r = pid
  born : se.inherited = false →
    match se.role with
    | .initiator => BuiltInitiator P se.birth se.start
    | .responder => BuiltResponder se.birth se.start
  born_getpid : se.inherited = false →
    ∀ r, (⟨.query .getpid, r⟩ : Ev HookResp) ∈ se.birth → r = pid

/-- The thread stands where its trace leads it in the hook it runs. -/
structure Thread.Ok (P : Primitives) (pid : Pid) (th : Thread) : Prop where
  runs : At (th.call.run P th.fuel true ()) th.trace th.prog
  getpid : ∀ r, (⟨.query .getpid, r⟩ : Ev HookResp) ∈ th.trace → r = pid

structure Process.Ok (P : Primitives) (p : Process) : Prop where
  enabled : p.interpositionEnabled = true
  sessions : ∀ se ∈ p.sessions, se.Ok P p.pid
  threads : ∀ tid th, p.threads tid = some th → th.Ok P p.pid
  finished : ∀ th ∈ p.finished, th.Ok P p.pid

section
variable {P : Primitives} {pid : Pid}

theorem Thread.Ok.safe {th : Thread} (h : th.Ok P pid) :
    Safe (hookInv P) (fun _ _ _ => True) (th.call.run P th.fuel true ()) [] ∧
      Safe (hookInv P) (fun _ _ _ => True) th.prog th.trace := by
  have hsafe : Safe (hookInv P) (fun _ _ _ => True) (th.call.run P th.fuel true ()) [] := by
    simpa [HookCall.run] using HookCall.body_safe (hookInv_rule P th.call) th.fuel
  refine ⟨hsafe, ?_⟩
  have hat := safe_at hsafe h.runs
  rwa [List.nil_append] at hat

theorem Thread.Ok.hookInv {th : Thread} (h : th.Ok P pid) {o : HookOp}
    {k : HookResp o → Prog HookResp Unit HookRet} (hprog : th.prog = .call () o k) :
    (hookInv P).call th.trace () o := by
  have hsafe := h.safe.2
  rw [hprog] at hsafe
  exact hsafe.1

theorem Thread.Ok.step {th : Thread} (h : th.Ok P pid) {o : HookOp}
    {k : HookResp o → Prog HookResp Unit HookRet} (hprog : th.prog = .call () o k) (r : HookResp o)
    (hr : ∀ r', (⟨.query .getpid, r'⟩ : Ev HookResp) = ⟨o, r⟩ → r' = pid) :
    Thread.Ok P pid { th with trace := th.trace ++ [⟨o, r⟩], prog := k r } := by
  refine ⟨?_, ?_⟩
  · have hruns := h.runs
    rw [hprog] at hruns
    exact hruns.step r
  · intro r' hmem
    rcases List.mem_append.mp hmem with hmem | hmem
    · exact h.getpid r' hmem
    · exact hr r' (List.mem_singleton.mp hmem)

theorem Session.new_ok {role : Role} {fd : Fd} {birth : Trace HookResp} {st : FdState}
    (hborn : match role with
      | .initiator => BuiltInitiator P birth st
      | .responder => BuiltResponder birth st)
    (hpid : ∀ r, (⟨.query .getpid, r⟩ : Ev HookResp) ∈ birth → r = pid) :
    (Session.new role fd birth st).Ok P pid where
  unlocked := fun _ => ⟨st, rfl⟩
  reach := fun _ => Reach.start
  log_hooked := fun e hmem => by cases hmem
  busy_hooked := fun c p hbusy => by cases hbusy
  getpid := fun r hmem => by cases hmem
  born := fun _ => hborn
  born_getpid := fun _ => hpid

theorem Session.Ok.enter {se : Session} (h : se.Ok P pid) {s : FdState} {c : FdCall}
    {holder : Holder} (hidle : se.status = .idle s) (hfree : se.holder = none)
    (hc : c.hooked = true) :
    Session.Ok P pid { se with status := .busy c (c.run P s), holder := some holder } where
  unlocked := fun hnone => by cases hnone
  reach := fun _ => by
    have hreach := h.reach (by simp [hfree])
    rw [hidle] at hreach
    exact hreach.enter c
  log_hooked := h.log_hooked
  busy_hooked := fun c' p hbusy => by
    cases hbusy
    exact hc
  getpid := h.getpid
  born := h.born
  born_getpid := h.born_getpid

theorem Session.Ok.answer {se : Session} (h : se.Ok P pid) {c : FdCall} {s : FdState} {o : Op}
    {k : Resp o → Prog Resp FdState FdRet} (hbusy : se.status = .busy c (.call s o k))
    (r : Resp o) (hr : Answers pid o r) :
    Session.Ok P pid { se with trace := se.trace ++ [⟨o, r⟩], status := .busy c (k r) } where
  unlocked := fun hnone => by
    obtain ⟨s', hidle⟩ := h.unlocked hnone
    rw [hbusy] at hidle
    cases hidle
  reach := fun hholder => by
    have hreach := h.reach hholder
    rw [hbusy] at hreach
    exact hreach.answer r
  log_hooked := h.log_hooked
  busy_hooked := fun c' p hb => by
    cases hb
    exact h.busy_hooked c _ hbusy
  getpid := fun r' hmem => by
    rcases List.mem_append.mp hmem with hmem | hmem
    · exact h.getpid r' hmem
    · cases List.mem_singleton.mp hmem
      exact hr
  born := h.born
  born_getpid := h.born_getpid

theorem Session.Ok.leave {se : Session} (h : se.Ok P pid) {c : FdCall} {s : FdState} {a : FdRet}
    (hdone : se.status = .busy c (.done s a)) (hholder : se.holder ≠ some .gone) :
    Session.Ok P pid { se with log := se.log ++ [(c, a)], status := .idle s, holder := none } where
  unlocked := fun _ => ⟨s, rfl⟩
  reach := fun _ => by
    have hreach := h.reach hholder
    rw [hdone] at hreach
    exact hreach.leave
  log_hooked := fun e hmem => by
    rcases List.mem_append.mp hmem with hmem | hmem
    · exact h.log_hooked e hmem
    · rw [List.mem_singleton.mp hmem]
      exact h.busy_hooked c _ hdone
  busy_hooked := fun c' p hb => by cases hb
  getpid := h.getpid
  born := h.born
  born_getpid := h.born_getpid

end

namespace Process
variable {P : Primitives} {p p' : Process}

theorem Ok.setSession (h : p.Ok P) {i : Handle} {se : Session} (hse : se.Ok P p.pid) :
    (p.setSession i se).Ok P where
  enabled := h.enabled
  sessions := fun se' hmem => by
    rcases List.mem_or_eq_of_mem_set hmem with hmem | rfl
    · exact h.sessions se' hmem
    · exact hse
  threads := h.threads
  finished := h.finished

theorem Ok.setThread (h : p.Ok P) {tid : Tid} {th : Option Thread}
    (hth : ∀ th', th = some th' → th'.Ok P p.pid) : (p.setThread tid th).Ok P where
  enabled := h.enabled
  sessions := h.sessions
  threads := fun tid' th' heq => by
    by_cases ht : tid' = tid
    · subst ht
      simp only [Process.setThread, Function.update_self] at heq
      exact hth th' heq
    · simp only [Process.setThread, Function.update_of_ne ht] at heq
      exact h.threads tid' th' heq
  finished := h.finished

theorem Ok.addSession (h : p.Ok P) {fd : Fd} {se : Session} (hse : se.Ok P p.pid) :
    (p.addSession fd se).Ok P where
  enabled := h.enabled
  sessions := fun se' hmem => by
    rcases List.mem_append.mp hmem with hmem | hmem
    · exact h.sessions se' hmem
    · rw [List.mem_singleton.mp hmem]
      exact hse
  threads := h.threads
  finished := h.finished

/-- The effect of a hook's call keeps the process in order, given what the thread
has done before it. -/
theorem Ok.effect (h : p.Ok P) {birth : Trace HookResp} {o : HookOp} {r : HookResp o}
    (he : Effect p birth o r p') (hinv : (hookInv P).call birth () o)
    (hpid : ∀ r, (⟨.query .getpid, r⟩ : Ev HookResp) ∈ birth → r = p.pid) :
    p'.Ok P ∧ p'.pid = p.pid := by
  cases he with
  | insert fd st => exact ⟨h.addSession (Session.new_ok hinv hpid), rfl⟩
  | orInsertVacant fd st _ => exact ⟨h.addSession (Session.new_ok hinv hpid), rfl⟩
  | remove fd => exact ⟨⟨h.enabled, h.sessions, h.threads, h.finished⟩, rfl⟩
  | _ => exact ⟨h, rfl⟩

theorem effect_getpid {birth : Trace HookResp} {o : HookOp} {r : HookResp o}
    (he : Effect p birth o r p') {r' : Pid} (heq : (⟨.query .getpid, r'⟩ : Ev HookResp) = ⟨o, r⟩) :
    r' = p.pid := by
  cases he with
  | query o r hr =>
    cases heq
    exact hr
  | _ => cases heq

theorem Ok.step (h : p.Ok P) (hs : Process.Step P p p') : p'.Ok P ∧ p'.pid = p.pid := by
  cases hs with
  | call htid c fuel =>
    refine ⟨h.setThread fun th' heq => ?_, rfl⟩
    cases heq
    rw [h.enabled]
    exact ⟨At.refl, fun r hmem => by cases hmem⟩
  | @hook tid th o k r p₁ htid hprog he =>
    have hth := h.threads tid th htid
    obtain ⟨h₁, hpid₁⟩ := h.effect he (hth.hookInv hprog) hth.getpid
    refine ⟨h₁.setThread fun th' heq => ?_, hpid₁⟩
    cases heq
    rw [hpid₁]
    exact hth.step hprog r fun r' heq => effect_getpid he heq
  | lock htid hprog he hse hidle hfree =>
    have hok := h.sessions _ (List.mem_of_getElem? hse)
    exact ⟨h.setSession (hok.enter hidle hfree (by cases he <;> rfl)), rfl⟩
  | answer hse hbusy _ r hr =>
    have hok := h.sessions _ (List.mem_of_getElem? hse)
    exact ⟨h.setSession (hok.answer hbusy r hr), rfl⟩
  | @unlock tid th o k hd c a r se s htid hprog he hse hdone hholder =>
    have hok := h.sessions _ (List.mem_of_getElem? hse)
    have h₁ := h.setSession (i := hd) (hok.leave hdone (by simp [hholder]))
    refine ⟨Ok.setThread h₁ fun th' heq => ?_, rfl⟩
    cases heq
    refine (h.threads tid th htid).step hprog r fun r' heq => ?_
    cases he <;> cases heq
  | reloadLock epoch hse hidle hfree =>
    have hok := h.sessions _ (List.mem_of_getElem? hse)
    exact ⟨h.setSession (hok.enter hidle hfree rfl), rfl⟩
  | reloadUnlock hse hdone hholder =>
    have hok := h.sessions _ (List.mem_of_getElem? hse)
    exact ⟨h.setSession (hok.leave hdone (by simp [hholder])), rfl⟩
  | @leave tid th a htid hprog =>
    have h₁ : (p.setThread tid none).Ok P := h.setThread fun th' heq => by cases heq
    refine ⟨⟨h₁.enabled, h₁.sessions, h₁.threads, fun th' hmem => ?_⟩, rfl⟩
    rcases List.mem_append.mp hmem with hmem | hmem
    · exact h.finished th' hmem
    · rw [List.mem_singleton.mp hmem]
      exact h.threads tid th htid

theorem initial_ok (pid : Pid) : (Process.initial pid true).Ok P where
  enabled := rfl
  sessions := fun se hmem => by cases hmem
  threads := fun tid th heq => by cases heq
  finished := fun th hmem => by cases hmem

theorem Reachable.ok {p₀ : Process} (h₀ : p₀.Ok P) (h : Process.Reachable P p₀ p) : p.Ok P := by
  induction h with
  | start => exact h₀
  | step _ hs ih => exact (ih.step hs).1

/-- Where a session comes from that is there after a step: it was there, or it was
built or used in this step, and then its lock is not lost. -/
theorem Step.sessions (hs : Process.Step P p p') {se' : Session} (hmem : se' ∈ p'.sessions) :
    se' ∈ p.sessions ∨ se'.holder ≠ some .gone ∧ (se'.inherited = false ∨
      ∃ se ∈ p.sessions, se'.inherited = se.inherited ∧ se'.start = se.start ∧
        se.holder ≠ some .gone) := by
  have hset : ∀ {i : Handle} {se : Session}, p.sessions[i]? = some se → ∀ {se₁ : Session},
      se' ∈ p.sessions.set i se₁ → se₁.inherited = se.inherited → se₁.start = se.start →
      se.holder ≠ some .gone → se₁.holder ≠ some .gone →
      se' ∈ p.sessions ∨ se'.holder ≠ some .gone ∧ (se'.inherited = false ∨
        ∃ se ∈ p.sessions, se'.inherited = se.inherited ∧ se'.start = se.start ∧
          se.holder ≠ some .gone) := by
    intro i se hse se₁ hmem hinh hstart hold hold'
    rcases List.mem_or_eq_of_mem_set hmem with hmem | rfl
    · exact .inl hmem
    · exact .inr ⟨hold', .inr ⟨se, List.mem_of_getElem? hse, hinh, hstart, hold⟩⟩
  cases hs with
  | call | leave => exact .inl hmem
  | hook _ _ he =>
    cases he with
    | insert | orInsertVacant =>
      rcases List.mem_append.mp hmem with hmem | hmem
      · exact .inl hmem
      · rw [List.mem_singleton.mp hmem]
        exact .inr ⟨by simp [Session.new], .inl rfl⟩
    | _ => exact .inl hmem
  | lock _ _ _ hse _ hfree | reloadLock _ hse _ hfree =>
    exact hset hse hmem rfl rfl (by simp [hfree]) (by simp)
  | answer hse _ hholder => exact hset hse hmem rfl rfl hholder hholder
  | unlock _ _ _ hse _ hholder | reloadUnlock hse _ hholder =>
    exact hset hse hmem rfl rfl (by simp [hholder]) (by simp)

theorem Step.registry (hs : Process.Step P p p') {fd : Fd} {h : Handle}
    (hreg : p'.registry fd = some h) : p.registry fd = some h ∨ h = p.sessions.length := by
  have hupdate : ∀ {fd' : Fd} {new : Option Handle},
      Function.update p.registry fd' new fd = some h → p.registry fd = some h ∨ new = some h := by
    intro fd' new hnew
    by_cases hfd : fd = fd'
    · subst hfd
      rw [Function.update_self] at hnew
      exact .inr hnew
    · rw [Function.update_of_ne hfd] at hnew
      exact .inl hnew
  cases hs with
  | hook htid hprog he =>
    cases he with
    | insert | orInsertVacant =>
      refine (hupdate hreg).imp_right fun hnew => ?_
      cases hnew
      rfl
    | remove => exact .inl ((hupdate hreg).resolve_right fun hnew => by cases hnew)
    | _ => exact .inl hreg
  | _ => exact .inl hreg

theorem Step.sessions_length (hs : Process.Step P p p') :
    p.sessions.length ≤ p'.sessions.length := by
  cases hs with
  | call | leave => exact le_rfl
  | hook _ _ he =>
    cases he with
    | insert | orInsertVacant =>
      simp only [setThread, addSession, List.length_append]
      exact Nat.le_add_right _ _
    | _ => exact le_rfl
  | lock | answer | unlock | reloadLock | reloadUnlock =>
    exact (List.length_set ..).ge

theorem own_step (h : ∀ se ∈ p.sessions, se.inherited = false ∧ se.holder ≠ some .gone)
    (hs : Process.Step P p p') :
    ∀ se ∈ p'.sessions, se.inherited = false ∧ se.holder ≠ some .gone := by
  intro se' hmem
  rcases hs.sessions hmem with hold | ⟨hholder, hnew | ⟨se, hse, hinh, -, -⟩⟩
  · exact h se' hold
  · exact ⟨hnew, hholder⟩
  · exact ⟨hinh.trans (h se hse).1, hholder⟩

theorem Reachable.own {pid : Pid} {enabled : Bool}
    (h : Process.Reachable P (Process.initial pid enabled) p) :
    ∀ se ∈ p.sessions, se.inherited = false ∧ se.holder ≠ some .gone := by
  induction h with
  | start => intro se hmem; cases hmem
  | step _ hs ih => exact own_step ih hs

end Process

/-! ### Threads of a process -/

/-- The threads of a process, those in a hook and those that have left it. -/
def Process.Ran (p : Process) (th : Thread) : Prop :=
  (∃ tid, p.threads tid = some th) ∨ th ∈ p.finished

/-- The thread has made the real call `c`, or is about to. -/
def Thread.Invokes (th : Thread) (c : RealCall) : Prop :=
  (∃ r, (⟨.real c, r⟩ : Ev HookResp) ∈ th.trace) ∨ ∃ k, th.prog = .call () (.real c) k

theorem Process.Ok.ran {P : Primitives} {p : Process} (h : p.Ok P) {th : Thread} (hth : p.Ran th) :
    th.Ok P p.pid := by
  rcases hth with ⟨tid, htid⟩ | hmem
  · exact h.threads tid th htid
  · exact h.finished th hmem

/-- A real call that could carry bytes to a descriptor is made after `getsockopt`
denied that it is a stream socket. -/
theorem Thread.Ok.cleared {P : Primitives} {pid : Pid} {th : Thread} (h : th.Ok P pid)
    {c : RealCall} (hc : th.Invokes c) {fd : Fd} (hfd : fd ∈ c.egress) : Cleared th.trace fd := by
  rcases hc with ⟨r, hmem⟩ | ⟨k, hprog⟩
  · obtain ⟨u, s, hu, hcall⟩ := safe_mem h.safe.1 h.runs hmem
    exact Cleared.mono (hcall fd hfd) hu
  · exact h.hookInv hprog fd hfd

/-! ### Sessions of a process -/

section
variable {P : Primitives} {pid : Pid} {se : Session}

/-- The construction of a session of one's own, with the queries that are the end
of the trace of the thread that built it. -/
theorem Session.Ok.opening (h : se.Ok P pid) (hown : se.inherited = false) :
    ∃ pre c, se.birth = pre ++ c.map queried ∧ Fresh c se.start ∧ Opening P c se.start se.role := by
  have hborn := h.born hown
  cases hrole : se.role with
  | initiator =>
    rw [hrole] at hborn
    obtain ⟨pre, c, hb, hat⟩ := hborn
    exact ⟨pre, c, hb, newInitiatorState_opening hat⟩
  | responder =>
    rw [hrole] at hborn
    obtain ⟨pre, c, suite, hb, hat⟩ := hborn
    exact ⟨pre, c, hb, newResponderState_opening hat⟩

theorem Session.Ok.sound (h : se.Ok P pid) (hown : se.inherited = false) :
    se.start.Sound ∧ se.start.Settled := by
  obtain ⟨pre, c, -, hf, ho⟩ := h.opening hown
  exact ⟨ho.sound hf, hf.settled⟩

theorem Session.Ok.held (h : se.Ok P pid) (hown : se.inherited = false)
    (hholder : se.holder ≠ some .gone) :
    Held (ioInv P True se.start) (fun l t s => AtRest P True se.start l t s) se.log se.trace
      se.status := by
  obtain ⟨hs, hset⟩ := h.sound hown
  have hrun := run_held id (fun _ _ => trivial) hs hset (h.reach hholder)
  simpa using hrun

theorem Session.Ok.between (h : se.Ok P pid) (hown : se.inherited = false)
    (hholder : se.holder ≠ some .gone) : Between P True se.start se.trace := by
  obtain ⟨hs, hset⟩ := h.sound hown
  exact run_between id (fun _ _ => trivial) hs hset (h.reach hholder)

end

end SyntriassOverlay

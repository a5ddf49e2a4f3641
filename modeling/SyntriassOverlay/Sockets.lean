import SyntriassOverlay.Process

/-!
# A process and its descriptors

`Process` leaves the answers of the kernel open. Here `getsockopt`, `connect` and `close`
answer for a table of descriptors: what each descriptor is, how far its connection is, and
what the calls of `connect` on it have returned so far.

Descriptors come from calls that are not interposed and get a number that is free. An
interrupted `connect` goes on in the background, as does one that is in progress.
-/

namespace SyntriassOverlay
open Crypto Resumption

/-! ### Descriptors -/

inductive Link where
  | unconnected
  | connecting
  | connected
  | accepted
  deriving DecidableEq

inductive Descriptor where
  | file
  | socket (stype : ℕ) (link : Link) (outcomes : List RealRet)
  deriving DecidableEq

abbrev Table := Fd → Option Descriptor

def Table.soType (T : Table) (fd : Fd) : Option ℕ :=
  match T fd with
  | some (.socket stype _ _) => some stype
  | _ => none

/-- What calls that are not interposed leave under a new number. -/
inductive Descriptor.New : Descriptor → Prop
  | file : New .file
  | socket (stype : ℕ) : New (.socket stype .unconnected [])
  | accepted : New (.socket sockStream .accepted [])

/-- The outcomes of `connect` on a socket, and what becomes of its connection. -/
inductive Connects (stype : ℕ) : Link → RealRet → Link → Prop
  | success {l : Link} {r : RealRet} (hr : r.ret = 0)
      (hl : stype = sockStream → l = .unconnected ∨ l = .connecting) : Connects stype l r .connected
  | background {l : Link} {r : RealRet} (hr : r.ret < 0)
      (he : r.errno = EINPROGRESS ∨ r.errno = EINTR) (hl : l = .unconnected ∨ l = .connecting) :
      Connects stype l r .connecting
  | failed {l : Link} {r : RealRet} (hr : r.ret < 0) (he : r.errno ≠ EINPROGRESS)
      (hl : l = .unconnected ∨ l = .connecting) : Connects stype l r .unconnected
  | unchanged {l : Link} {r : RealRet} (hr : r.ret < 0) (he : r.errno ≠ EINPROGRESS) :
      Connects stype l r l

/-- The calls that neither ask about the descriptors nor change them. -/
def HookOp.aloof : HookOp → Bool
  | .soType _ | .real (.connect _) | .real (.close _) => false
  | _ => true

/-- The part of the kernel in a call of a hook. -/
inductive Served (T : Table) : Ev HookResp → Table → Prop
  | soType (fd : Fd) : Served T ⟨.soType fd, T.soType fd⟩ T
  | connect {fd : Fd} {stype : ℕ} {l l' : Link} {outcomes : List RealRet} {r : RealRet}
      (hfd : T fd = some (.socket stype l outcomes)) (h : Connects stype l r l') :
      Served T ⟨.real (.connect fd), r⟩
        (Function.update T fd (some (.socket stype l' (outcomes ++ [r]))))
  | notSocket {fd : Fd} {r : RealRet} (hfd : T.soType fd = none) (hr : ¬ r.Starts) :
      Served T ⟨.real (.connect fd), r⟩ T
  | close (fd : Fd) (r : RealRet) :
      Served T ⟨.real (.close fd), r⟩ (Function.update T fd none)
  | aloof {e : Ev HookResp} (he : e.op.aloof = true) : Served T e T

/-! ### The process among its descriptors -/

structure World where
  process : Process
  table : Table

def World.initial (pid : Pid) : World := ⟨.initial pid true, fun _ => none⟩

/-- The hooks make no call in this step, or one that enters a session. -/
def Inside (p p' : Process) : Prop :=
  ∀ tid th th', p.threads tid = some th → p'.threads tid = some th' →
    th'.trace = th.trace ∨
      ∃ o h c a, ∃ r : HookResp o, Enters o h c a r ∧ th'.trace = th.trace ++ [⟨o, r⟩]

/-- The thread after the answer `r` to its call. -/
abbrev Thread.next (th : Thread) {o : HookOp} (k : HookResp o → Prog HookResp Unit HookRet)
    (r : HookResp o) : Thread := { th with trace := th.trace ++ [⟨o, r⟩], prog := k r }

inductive World.Step (P : Primitives) (w : World) : World → Prop
  | hook {tid : Tid} {th : Thread} {o : HookOp} {k : HookResp o → Prog HookResp Unit HookRet}
      {r : HookResp o} {p' : Process} {T' : Table} (htid : w.process.threads tid = some th)
      (hprog : th.prog = .call () o k) (he : Effect w.process th.trace o r p')
      (hk : Served w.table ⟨o, r⟩ T') :
      Step P w ⟨p'.setThread tid (some (th.next k r)), T'⟩
  | inside {p' : Process} (hs : Process.Step P w.process p') (hin : Inside w.process p') :
      Step P w ⟨p', w.table⟩
  | opens {fd : Fd} {d : Descriptor} (hfree : w.table fd = none) (hd : d.New) :
      Step P w ⟨w.process, Function.update w.table fd (some d)⟩
  | settles {fd : Fd} {stype : ℕ} {outcomes : List RealRet} (l : Link)
      (hfd : w.table fd = some (.socket stype .connecting outcomes))
      (hl : l = .connected ∨ l = .unconnected) :
      Step P w ⟨w.process, Function.update w.table fd (some (.socket stype l outcomes))⟩

/-- The states of runs whose steps all meet the condition `allowed`. -/
inductive World.Reachable (P : Primitives) (allowed : World → World → Prop) (pid : Pid) :
    World → Prop
  | start : Reachable P allowed pid (.initial pid)
  | step {w w' : World} (h : Reachable P allowed pid w) (ha : allowed w w')
      (hs : World.Step P w w') : Reachable P allowed pid w'

/-- No hook is running. -/
def World.AtRest (w : World) : Prop := ∀ tid, w.process.threads tid = none

/-- Calls come one after the other: a hook is called, or a descriptor is opened, only when no
hook is running. -/
structure Alone (w w' : World) : Prop where
  calls : ∀ tid, w.process.threads tid = none → w'.process.threads tid ≠ none → w.AtRest
  opens : ∀ fd, w.table fd = none → w'.table fd ≠ none → w.AtRest

/-! ### The shape of a hook's trace -/

/-- The traces after which a hook changes the registry or a descriptor. -/
def shapeInv (c : HookCall) : Obligation HookResp Unit where
  call t _ o :=
    match o with
    | .insert fd _ => c = .connect fd ∧
        ∃ (r : RealRet) (q : Tr), r.Starts ∧ t = ⟨.real (.connect fd), r⟩ :: q.map queried
    | .orInsert fd _ => fd = c.fd ∧ c.tracks = true ∧
        ∃ q q' : Tr, t = adopting fd q ++ q'.map queried
    | .remove fd => c = .close fd ∧ t = []
    | .real c' => c' = c.passThrough ∧ Forwards c t
    | _ => True
  cut _ _ := True

theorem shapeInv_rule (P : Primitives) (c : HookCall) : HookRule P (shapeInv c) c where
  calm := fun t o ho _ => by cases o <;> trivial
  enter := fun t fd h c' o ho => by cases o <;> trivial
  cut := fun _ => trivial
  real := fun _ hf => ⟨rfl, hf⟩
  insert := fun fd r q st hc hr _ => ⟨hc, r, q, hr, rfl⟩
  orInsert := fun q q' suite st htr _ => ⟨rfl, htr, q, q', rfl⟩
  remove := fun _ hc => ⟨hc, rfl⟩

theorem Thread.Ok.shape {P : Primitives} {pid : Pid} {th : Thread} (h : th.Ok P pid) {o : HookOp}
    {k : HookResp o → Prog HookResp Unit HookRet} (hprog : th.prog = .call () o k) :
    (shapeInv th.call).call th.trace () o := by
  have hruns := h.runs
  rw [hprog, HookCall.run] at hruns
  exact (safe_at (HookCall.body_safe (shapeInv_rule P th.call) th.fuel) hruns).1

/-- The registry and the descriptors are still as the event shows them. -/
def World.Confirms (w : World) : Ev HookResp → Prop
  | ⟨.soType fd, r⟩ => r = w.table.soType fd
  | ⟨.containsKey fd, r⟩ => r = true → w.process.registry fd ≠ none
  | ⟨.real (.connect fd), r⟩ => RealRet.Starts r →
      ∃ stype l outcomes, w.table fd = some (.socket stype l outcomes) ∧ r ∈ outcomes
  | ⟨.remove fd, _⟩ => w.process.registry fd = none
  | _ => True

/-- A thread is up to date: what it was told still holds. -/
def World.Seen (w : World) (th : Thread) : Prop := ∀ e ∈ th.trace, w.Confirms e

section
variable {P : Primitives} {pid : Pid} {w w' : World} {p p' : Process} {th th' : Thread}

theorem World.Confirms.keep {e : Ev HookResp} (h : w.Confirms e)
    (hreg : w'.process.registry = w.process.registry)
    (htable : ∀ fd stype l outcomes, w.table fd = some (.socket stype l outcomes) →
      ∃ l', w'.table fd = some (.socket stype l' outcomes))
    (htype : ∀ fd, w'.table.soType fd = w.table.soType fd) : w'.Confirms e := by
  obtain ⟨o, r⟩ := e
  cases o with
  | soType fd => exact h.trans (htype fd).symm
  | containsKey fd =>
    intro hr
    rw [hreg]
    exact h hr
  | remove fd => exact (congrFun hreg fd).trans h
  | real c =>
    cases c with
    | connect fd =>
      intro hr
      obtain ⟨stype, l, outcomes, hfd, hmem⟩ := h hr
      obtain ⟨l', hfd'⟩ := htable fd stype l outcomes hfd
      exact ⟨stype, l', outcomes, hfd', hmem⟩
    | _ => trivial
  | _ => trivial

theorem World.Confirms.same {e : Ev HookResp} (h : w.Confirms e) (htable : w'.table = w.table)
    (hreg : w'.process.registry = w.process.registry) : w'.Confirms e :=
  h.keep hreg (fun fd stype l outcomes hfd => ⟨l, htable ▸ hfd⟩) fun fd => by rw [htable]

/-- Only queries and calls into sessions have been made since. -/
def HookOp.remote : HookOp → Bool
  | .query _ | .overlaySend _ _ _ _ | .overlayRecv _ _ _ _ _ => true
  | _ => false

theorem World.confirms_remote {e : Ev HookResp} (he : e.op.remote = true) : w.Confirms e := by
  obtain ⟨o, r⟩ := e
  cases o <;> trivial

theorem confirms_queried {q : Tr} {e : Ev HookResp} (h : e ∈ q.map queried) : w.Confirms e := by
  obtain ⟨e', -, rfl⟩ := List.mem_map.mp h
  trivial

/-- What a step inside the sessions, or at the ends of a hook, leaves as it is. -/
structure Quiet (p p' : Process) : Prop where
  registry : p'.registry = p.registry
  roles : ∀ (h : Handle) (se : Session), p.sessions[h]? = some se →
    ∃ se', p'.sessions[h]? = some se' ∧ se'.role = se.role
  threads : ∀ tid th', p'.threads tid = some th' →
    (∃ th, p.threads tid = some th ∧ th'.call = th.call ∧ th.trace <+: th'.trace ∧
      ∀ e ∈ th'.trace, e ∈ th.trace ∨ e.op.remote = true) ∨
    p.threads tid = none ∧ th'.trace = []
  left : ∀ tid th, p.threads tid = some th → p'.threads tid = none → ∃ a, th.prog = .done () a
  called : ∃ tid, ∀ tid', tid' ≠ tid → p.threads tid' = none → p'.threads tid' = none

theorem Quiet.sessions {h : Handle} {se se₁ : Session} (hse : p.sessions[h]? = some se)
    (hrole : se₁.role = se.role) : Quiet p (p.setSession h se₁) where
  registry := rfl
  roles := fun i se' hi => by
    by_cases heq : h = i
    · subst heq
      rw [hse] at hi
      cases hi
      have hlt : h < p.sessions.length := (List.getElem?_eq_some_iff.mp hse).1
      exact ⟨se₁, by simp [Process.setSession, hlt], hrole⟩
    · exact ⟨se', by simp [Process.setSession, List.getElem?_set_ne heq, hi], rfl⟩
  threads := fun tid th' hth => .inl ⟨th', hth, rfl, List.prefix_rfl, fun e he => .inl he⟩
  left := fun tid th hth hnone => by
    cases (show p.threads tid = none from hnone).symm.trans hth
  called := ⟨0, fun _ _ hnone => hnone⟩

theorem Quiet.thread {tid : Tid} {new : Option Thread} (hq : Quiet p p')
    (hsame : p'.threads = p.threads)
    (hnew : ∀ th', new = some th' →
      (∃ th, p.threads tid = some th ∧ th'.call = th.call ∧ th.trace <+: th'.trace ∧
        ∀ e ∈ th'.trace, e ∈ th.trace ∨ e.op.remote = true) ∨
      p.threads tid = none ∧ th'.trace = [])
    (hleft : ∀ th, p.threads tid = some th → new = none → ∃ a, th.prog = .done () a) :
    Quiet p (p'.setThread tid new) where
  registry := hq.registry
  roles := hq.roles
  threads := fun tid' th' hth => by
    by_cases ht : tid' = tid
    · subst ht
      exact hnew th' (by simpa [Process.setThread] using hth)
    · refine hq.threads tid' th' ?_
      simpa [Process.setThread, Function.update_of_ne ht] using hth
  left := fun tid' th hth hnone => by
    by_cases ht : tid' = tid
    · subst ht
      exact hleft th hth (by simpa [Process.setThread] using hnone)
    · simp only [Process.setThread, Function.update_of_ne ht, hsame, hth] at hnone
      cases hnone
  called := by
    refine ⟨tid, fun tid' ht hnone => ?_⟩
    simpa [Process.setThread, Function.update_of_ne ht, hsame] using hnone

theorem Quiet.refl (p : Process) : Quiet p p where
  registry := rfl
  roles := fun _ se hse => ⟨se, hse, rfl⟩
  threads := fun _ th' hth => .inl ⟨th', hth, rfl, List.prefix_rfl, fun _ he => .inl he⟩
  left := fun _ _ hth hnone => by cases hnone.symm.trans hth
  called := ⟨0, fun _ _ hnone => hnone⟩

theorem Effect.not_enters {birth : Trace HookResp} {o : HookOp} {r r' : HookResp o}
    (he : Effect p birth o r p') {h : Handle} {c : FdCall} {a : FdRet} : ¬ Enters o h c a r' := by
  intro hen
  cases hen <;> cases he

theorem Inside.quiet (hs : Process.Step P p p') (hin : Inside p p') : Quiet p p' := by
  cases hs with
  | @call tid htid c fuel =>
    refine (Quiet.refl p).thread rfl (fun th' heq => .inr ⟨htid, ?_⟩) fun th hth => ?_
    · cases heq
      rfl
    · cases hth.symm.trans htid
  | @hook tid th o k r p₁ htid hprog he =>
    have hnew := hin tid th (th.next k r) htid (by simp [Process.setThread])
    rcases hnew with heq | ⟨o', h, c, a, r', hen, heq⟩
    · simp at heq
    · have hev := List.append_cancel_left heq
      simp only [List.cons.injEq, and_true] at hev
      cases hev
      exact absurd hen he.not_enters
  | lock _ _ _ hse => exact .sessions hse rfl
  | answer hse | reloadLock _ hse | reloadUnlock hse => exact .sessions hse rfl
  | @unlock tid th o k h c a r se s htid hprog he hse hdone hholder =>
    have hq : Quiet p (p.setSession h
        { se with log := se.log ++ [(c, a)], status := .idle s, holder := none }) :=
      .sessions hse rfl
    refine hq.thread rfl (fun th' heq => .inl ⟨th, htid, ?_⟩) ?_
    · cases heq
      refine ⟨rfl, List.prefix_append _ _, fun e hmem => ?_⟩
      rcases List.mem_append.mp hmem with hmem | hmem
      · exact .inl hmem
      · rw [List.mem_singleton.mp hmem]
        cases he <;> exact .inr rfl
    · exact fun _ _ heq => by cases heq
  | @leave tid th a htid hprog =>
    have hq : Quiet p (p.setThread tid none) := by
      refine (Quiet.refl p).thread rfl (fun th' heq => by cases heq) fun th₀ hth _ => ?_
      cases hth.symm.trans htid
      exact ⟨a, hprog⟩
    exact ⟨hq.registry, hq.roles, hq.threads, hq.left, hq.called⟩

theorem HookCall.passThrough_connect {c : HookCall} {fd : Fd} (h : .connect fd = c.passThrough) :
    c = .connect fd := by
  cases c <;> cases h
  rfl

theorem HookCall.passThrough_close {c : HookCall} {fd : Fd} (h : .close fd = c.passThrough) :
    c = .close fd := by
  cases c <;> cases h
  rfl

theorem World.Seen.hook {o : HookOp} {k : HookResp o → Prog HookResp Unit HookRet}
    {r : HookResp o} {T' : Table} (h : w.Seen th) (hok : th.Ok P pid)
    (hprog : th.prog = .call () o k) (he : Effect w.process th.trace o r p')
    (hk : Served w.table ⟨o, r⟩ T') :
    ∀ e ∈ th.trace ++ [⟨o, r⟩], World.Confirms ⟨p', T'⟩ e := by
  have hshape := hok.shape hprog
  suffices hall : (∀ e ∈ th.trace, World.Confirms ⟨p', T'⟩ e) ∧ World.Confirms ⟨p', T'⟩ ⟨o, r⟩ by
    intro e hmem
    rcases List.mem_append.mp hmem with hmem | hmem
    · exact hall.1 e hmem
    · rw [List.mem_singleton.mp hmem]
      exact hall.2
  have hsame : p' = w.process → T' = w.table → ∀ e ∈ th.trace, World.Confirms ⟨p', T'⟩ e := by
    rintro rfl rfl e hmem
    exact (h e hmem).same rfl rfl
  cases he with
  | containsKey fd =>
    cases hk
    refine ⟨hsame rfl rfl, fun hsome hnone => ?_⟩
    rw [show w.process.registry fd = none from hnone] at hsome
    cases hsome
  | lookup | query | blockedBypassAttempt | orInsertOccupied =>
    cases hk
    exact ⟨hsame rfl rfl, trivial⟩
  | soType fd r =>
    cases hk with
    | aloof ha => cases ha
    | soType => exact ⟨hsame rfl rfl, rfl⟩
  | insert fd st =>
    cases hk
    obtain ⟨-, r₀, q, -, ht⟩ := hshape
    refine ⟨fun e hmem => ?_, trivial⟩
    have hold := h e hmem
    rw [ht] at hmem
    rcases List.mem_cons.mp hmem with rfl | hmem
    · exact hold
    · exact confirms_queried hmem
  | orInsertVacant fd st hvacant =>
    cases hk
    obtain ⟨-, -, q, q', ht⟩ := hshape
    refine ⟨fun e hmem => ?_, trivial⟩
    have hold := h e hmem
    rw [ht, adopting] at hmem
    simp only [List.mem_append, List.mem_cons, List.not_mem_nil, or_false] at hmem
    rcases hmem with (((rfl | rfl) | hmem) | rfl) | hmem
    · exact fun hr => by cases hr
    · exact hold
    · exact confirms_queried hmem
    · exact fun hr => by cases hr
    · exact confirms_queried hmem
  | remove fd =>
    cases hk
    obtain ⟨-, ht⟩ := hshape
    refine ⟨fun e hmem => ?_, by simp [World.Confirms]⟩
    rw [ht] at hmem
    cases hmem
  | real c r =>
    obtain ⟨hc, hf⟩ := hshape
    cases hk with
    | @connect fd stype l l' outcomes _ hfd hconn =>
      have ht := hf.connect fd (HookCall.passThrough_connect hc)
      refine ⟨fun e hmem => ?_, fun _ => ⟨stype, l', outcomes ++ [r], by simp, by simp⟩⟩
      rw [ht] at hmem
      cases hmem
    | @notSocket fd _ hfd hr => exact ⟨hsame rfl rfl, fun hstarts => absurd hstarts hr⟩
    | close fd =>
      have ht := hf.close fd (HookCall.passThrough_close hc)
      refine ⟨fun e hmem => ?_, trivial⟩
      have hold := h e hmem
      rw [ht] at hmem
      rw [List.mem_singleton.mp hmem] at hold ⊢
      exact hold
    | aloof ha =>
      refine ⟨hsame rfl rfl, ?_⟩
      cases c <;> trivial

/-! ### One call after the other -/

/-- In a world with one call after the other, at most one hook is running, and its thread is
up to date. -/
structure World.Ok (P : Primitives) (w : World) : Prop where
  process : w.process.Ok P
  single : ∀ tid tid' th th', w.process.threads tid = some th →
    w.process.threads tid' = some th' → tid = tid'
  seen : ∀ tid th, w.process.threads tid = some th → w.Seen th

theorem Effect.threads {birth : Trace HookResp} {o : HookOp} {r : HookResp o}
    (he : Effect p birth o r p') : p'.threads = p.threads := by
  cases he <;> rfl

theorem World.Ok.hook {o : HookOp} {k : HookResp o → Prog HookResp Unit HookRet} {r : HookResp o}
    {T' : Table} {tid : Tid} (h : w.Ok P) (htid : w.process.threads tid = some th)
    (hprog : th.prog = .call () o k) (he : Effect w.process th.trace o r p')
    (hk : Served w.table ⟨o, r⟩ T') :
    World.Ok P ⟨p'.setThread tid (some (th.next k r)), T'⟩ := by
  have honly : ∀ tid' th', (p'.setThread tid (some (th.next k r))).threads tid' = some th' →
      tid' = tid ∧ th' = th.next k r := by
    intro tid' th' hth'
    by_cases ht : tid' = tid
    · subst ht
      simp only [Process.setThread, Function.update_self, Option.some.injEq] at hth'
      exact ⟨rfl, hth'.symm⟩
    · simp only [Process.setThread, Function.update_of_ne ht, he.threads] at hth'
      exact absurd (h.single tid' tid th' th hth' htid) ht
  refine ⟨(h.process.step (.hook htid hprog he)).1, fun tid₁ tid₂ th₁ th₂ h₁ h₂ => ?_,
    fun tid' th' hth' => ?_⟩
  · rw [(honly tid₁ th₁ h₁).1, (honly tid₂ th₂ h₂).1]
  · rw [(honly tid' th' hth').2]
    have hseen := (h.seen tid th htid).hook (h.process.threads tid th htid) hprog he hk
    exact fun e hmem => (hseen e hmem).same rfl rfl

theorem World.Ok.inside (h : w.Ok P) (hs : Process.Step P w.process p')
    (hin : Inside w.process p') (ha : Alone w ⟨p', w.table⟩) : World.Ok P ⟨p', w.table⟩ := by
  have hq := hin.quiet hs
  refine ⟨(h.process.step hs).1, fun tid₁ tid₂ th₁ th₂ h₁ h₂ => ?_, fun tid th' hth' e he => ?_⟩
  · obtain ⟨tid, hcalled⟩ := hq.called
    -- a thread that was not running is the one that was called, and then it is the only one
    have hnew : ∀ tid' th', p'.threads tid' = some th' → w.process.threads tid' = none →
        tid' = tid ∧ w.AtRest := by
      intro tid' th' hth' hnone
      refine ⟨?_, ha.calls tid' hnone fun hnone' => by cases hnone'.symm.trans hth'⟩
      by_contra hne
      cases (hcalled tid' hne hnone).symm.trans hth'
    have hall : ∀ tid' th', p'.threads tid' = some th' → w.AtRest → tid' = tid := by
      intro tid' th' hth' hrest
      exact (hnew tid' th' hth' (hrest tid')).1
    rcases hq.threads tid₁ th₁ h₁ with ⟨th₁', hold₁, -⟩ | ⟨hnone₁, -⟩
    · rcases hq.threads tid₂ th₂ h₂ with ⟨th₂', hold₂, -⟩ | ⟨hnone₂, -⟩
      · exact h.single tid₁ tid₂ th₁' th₂' hold₁ hold₂
      · have hrest := (hnew tid₂ th₂ h₂ hnone₂).2
        rw [hall tid₁ th₁ h₁ hrest, hall tid₂ th₂ h₂ hrest]
    · have hrest := (hnew tid₁ th₁ h₁ hnone₁).2
      rw [hall tid₁ th₁ h₁ hrest, hall tid₂ th₂ h₂ hrest]
  · rcases hq.threads tid th' hth' with ⟨th, hold, -, -, hev⟩ | ⟨-, hnil⟩
    · rcases hev e he with hmem | hremote
      · exact (h.seen tid th hold e hmem).same rfl hq.registry
      · exact World.confirms_remote hremote
    · rw [hnil] at he
      cases he

theorem World.Ok.step (h : w.Ok P) (ha : Alone w w') (hs : World.Step P w w') : w'.Ok P := by
  cases hs with
  | hook htid hprog he hk => exact h.hook htid hprog he hk
  | inside hs hin => exact h.inside hs hin ha
  | @opens fd d hfree hd =>
    have hrest := ha.opens fd hfree (by simp)
    refine ⟨h.process, h.single, fun tid th hth => ?_⟩
    cases (hrest tid).symm.trans hth
  | @settles fd stype outcomes l hfd hl =>
    refine ⟨h.process, h.single, fun tid th hth e hmem => ?_⟩
    refine (h.seen tid th hth e hmem).keep rfl
      (fun fd' stype' l' outcomes' hfd' => ?_) fun fd' => ?_
    · by_cases heq : fd' = fd
      · subst heq
        cases hfd.symm.trans hfd'
        exact ⟨l, by simp⟩
      · exact ⟨l', by simpa [Function.update_of_ne heq] using hfd'⟩
    · by_cases heq : fd' = fd
      · subst heq
        simp [Table.soType, hfd]
      · simp [Table.soType, Function.update_of_ne heq]

theorem World.initial_ok (pid : Pid) : (World.initial pid).Ok P where
  process := Process.initial_ok pid
  single := fun _ _ _ _ hth => by cases hth
  seen := fun _ _ hth => by cases hth

theorem World.Reachable.ok {allowed : World → World → Prop}
    (halone : ∀ w w', allowed w w' → Alone w w') (h : World.Reachable P allowed pid w) :
    w.Ok P := by
  induction h with
  | start => exact World.initial_ok pid
  | step _ ha hs ih => exact ih.step (halone _ _ ha) hs

/-! ### Runs with one call after the other -/

theorem Served.free {T T' : Table} {e : Ev HookResp} (h : Served T e T') {fd : Fd}
    (hfd : T fd = none) : T' fd = none := by
  cases h with
  | soType | notSocket | aloof => exact hfd
  | @connect fd₀ _ _ _ _ _ hfd₀ =>
    have hne : fd ≠ fd₀ := by
      rintro rfl
      cases hfd.symm.trans hfd₀
    simpa [Function.update_of_ne hne] using hfd
  | close fd₀ =>
    by_cases heq : fd = fd₀
    · simp [heq]
    · simpa [Function.update_of_ne heq] using hfd

theorem Alone.of_no_new (hthreads : ∀ tid, w.process.threads tid = none →
    w'.process.threads tid = none) (htable : ∀ fd, w.table fd = none → w'.table fd = none) :
    Alone w w' :=
  ⟨fun tid hnone hsome => absurd (hthreads tid hnone) hsome,
    fun fd hnone hsome => absurd (htable fd hnone) hsome⟩

theorem World.Step.calls (hrest : w.AtRest) (tid : Tid) (c : HookCall) (fuel : ℕ) :
    World.Step P w ⟨w.process.setThread tid
      (some ⟨c, fuel, [], c.run P fuel w.process.interpositionEnabled ()⟩), w.table⟩ := by
  refine .inside (.call (hrest tid) c fuel) fun tid' th th' hth => ?_
  cases (hrest tid').symm.trans hth

namespace World.Reachable
variable (hw : World.Reachable P Alone pid w)
include hw

theorem opens (hrest : w.AtRest) {fd : Fd} {d : Descriptor} (hfree : w.table fd = none)
    (hd : d.New) :
    World.Reachable P Alone pid ⟨w.process, Function.update w.table fd (some d)⟩ :=
  hw.step ⟨fun _ _ _ => hrest, fun _ _ _ => hrest⟩ (.opens hfree hd)

theorem settles (fd : Fd) {stype : ℕ} {outcomes : List RealRet} (l : Link)
    (hfd : w.table fd = some (.socket stype .connecting outcomes))
    (hl : l = .connected ∨ l = .unconnected) :
    World.Reachable P Alone pid
      ⟨w.process, Function.update w.table fd (some (.socket stype l outcomes))⟩ := by
  refine hw.step (.of_no_new (fun _ hnone => hnone) fun fd' hnone => ?_) (.settles l hfd hl)
  have hne : fd' ≠ fd := by
    rintro rfl
    cases hnone.symm.trans hfd
  simpa [Function.update_of_ne hne] using hnone

theorem calls (hrest : w.AtRest) (tid : Tid) (c : HookCall) (fuel : ℕ) :
    World.Reachable P Alone pid
      ⟨w.process.setThread tid (some ⟨c, fuel, [], c.body P fuel ()⟩), w.table⟩ := by
  have hs := World.Step.calls (P := P) hrest tid c fuel
  rw [(hw.ok fun _ _ => id).process.enabled] at hs
  exact hw.step ⟨fun _ _ _ => hrest, fun _ _ _ => hrest⟩ hs

theorem asks {tid : Tid} {th : Thread} {o : HookOp} {k : HookResp o → Prog HookResp Unit HookRet}
    {r : HookResp o} {p' : Process} {T' : Table} (htid : w.process.threads tid = some th)
    (hprog : th.prog = .call () o k) (he : Effect w.process th.trace o r p')
    (hk : Served w.table ⟨o, r⟩ T') :
    World.Reachable P Alone pid ⟨p'.setThread tid (some (th.next k r)), T'⟩ := by
  refine hw.step (.of_no_new (fun tid' hnone => ?_) fun fd hnone => hk.free hnone)
    (.hook htid hprog he hk)
  have hne : tid' ≠ tid := by
    rintro rfl
    cases hnone.symm.trans htid
  simpa [Process.setThread, Function.update_of_ne hne, he.threads] using hnone

theorem leaves {tid : Tid} {th : Thread} {a : HookRet} (htid : w.process.threads tid = some th)
    (hprog : th.prog = .done () a) :
    World.Reachable P Alone pid ⟨{ w.process.setThread tid none with
      finished := w.process.finished ++ [th] }, w.table⟩ := by
  have hnew : ∀ tid', tid' ≠ tid →
      (w.process.setThread tid none).threads tid' = w.process.threads tid' :=
    fun tid' hne => Function.update_of_ne hne _ _
  refine hw.step (.of_no_new (fun tid' hnone => ?_) fun _ hnone => hnone)
    (.inside (.leave htid hprog) fun tid' th₀ th₁ h₀ h₁ => ?_)
  · by_cases heq : tid' = tid
    · simp [heq, Process.setThread]
    · exact (hnew tid' heq).trans hnone
  · have heq : tid' ≠ tid := by
      rintro rfl
      simp [Process.setThread] at h₁
    cases h₀.symm.trans ((hnew tid' heq).symm.trans h₁)
    exact .inl rfl

theorem atRest_leave {tid : Tid} {th : Thread} (htid : w.process.threads tid = some th) :
    World.AtRest ⟨{ w.process.setThread tid none with
      finished := w.process.finished ++ [th] }, w.table⟩ := by
  intro tid'
  by_cases heq : tid' = tid
  · simp [heq, Process.setThread]
  · have hnone : w.process.threads tid' = none := by
      by_contra hsome
      obtain ⟨th', hth'⟩ := Option.ne_none_iff_exists'.mp hsome
      exact heq ((hw.ok fun _ _ => id).single tid' tid th' th hth' htid)
    simpa [Process.setThread, Function.update_of_ne heq] using hnone

end World.Reachable

end

end SyntriassOverlay

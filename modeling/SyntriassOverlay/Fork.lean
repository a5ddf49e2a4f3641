import SyntriassOverlay.Records
import SyntriassOverlay.Schedule

/-!
# Process trees

A fork copies the registry with every session in it, its keys, counters and
backlogs included, into a new process. The copies are worthless there: every call
on them compares `getpid` with the owner first and closes them. So a pair of key
and nonce is used by one session of one process only, and there for one record.
-/

namespace SyntriassOverlay
open Crypto Resumption

/-! ### Fork -/

/-- The copy of a session in a child. A lock that some thread of the parent holds
stays locked, because that thread is not copied. -/
def Session.forked (se : Session) : Session :=
  { se with
    inherited := true
    start := se.status.state
    log := []
    trace := []
    status := .idle se.status.state
    holder := if se.holder = none then none else some .gone }

/-- The child: all of the memory, and no thread that is inside a hook. -/
def Process.forked (p : Process) (pid : Pid) : Process where
  pid := pid
  interpositionEnabled := p.interpositionEnabled
  registry := p.registry
  sessions := p.sessions.map Session.forked
  threads := fun _ => none
  finished := []

/-- All processes of a tree, in the order of their creation. Those that have exited
stay in the list, so that the identifier of a child is new in the whole run. -/
abbrev Tree := List Process

inductive Tree.Step (P : Primitives) (ps : Tree) : Tree → Prop
  | inside {i : ℕ} {p p' : Process} (hp : ps[i]? = some p) (hs : Process.Step P p p') :
      Step P ps (ps.set i p')
  | fork {i : ℕ} {p : Process} (hp : ps[i]? = some p) (pid : Pid)
      (hfresh : ∀ q ∈ ps, q.pid ≠ pid) : Step P ps (ps ++ [p.forked pid])

inductive Tree.Reachable (P : Primitives) (ps₀ : Tree) : Tree → Prop
  | start : Reachable P ps₀ ps₀
  | step {ps ps' : Tree} : Reachable P ps₀ ps → Tree.Step P ps ps' → Reachable P ps₀ ps'

theorem Tree.Reachable.inside {P : Primitives} {ps₀ ps : Tree} (h : Tree.Reachable P ps₀ ps) {i : ℕ}
    {p p' : Process} (hp : ps[i]? = some p) (hs : Process.Reachable P p p') :
    Tree.Reachable P ps₀ (ps.set i p') := by
  have hlt := (List.getElem?_eq_some_iff.mp hp).1
  induction hs with
  | start =>
    have hsame : ps.set i p = ps := by
      obtain ⟨hi, rfl⟩ := List.getElem?_eq_some_iff.mp hp
      exact List.set_getElem_self hi
    rwa [hsame]
  | step _ hs ih =>
    have hstep := Tree.Step.inside (List.getElem?_set_self hlt) hs
    rw [List.set_set] at hstep
    exact .step ih hstep

/-! ### A session of another process -/

/-- Every `getpid` of the trace was answered with `pid`. -/
def OwnPid (pid : Pid) (t : Tr) : Prop := ∀ r, (⟨.getpid, r⟩ : Ev Resp) ∈ t → r = pid

theorem OwnPid.left {pid : Pid} {t u : Tr} (h : OwnPid pid (t ++ u)) : OwnPid pid t :=
  fun r hmem => h r (List.mem_append_left u hmem)

/-- Nothing is sealed, as long as `getpid` answers `pid`. -/
def unsealedInv (pid : Pid) : Obligation Resp FdState where
  call t _ _ := OwnPid pid t → seals t = []
  cut t _ := OwnPid pid t → seals t = []

/-- Nothing was sealed and the session still is that of another process. -/
def Foreign (pid owner : Pid) (t : Tr) (s : FdState) : Prop :=
  OwnPid pid t → seals t = [] ∧ s.ownerPid = owner

section
variable {pid owner : Pid} {t : Tr} {s : FdState} {α : Type}

theorem Foreign.snoc (h : Foreign pid owner t s) {o : Op} (ho : o.mute = true) (r : Resp o) :
    Foreign pid owner (t ++ [⟨o, r⟩]) s := by
  intro hpid
  obtain ⟨hseals, howner⟩ := h hpid.left
  exact ⟨by rw [seals_append, hseals, (Op.mute_inert ho r).2]; rfl, howner⟩

theorem Foreign.unsealed (h : Foreign pid owner t s) (hpid : OwnPid pid t) : seals t = [] :=
  (h hpid).1

theorem failClosed_foreign (h : Foreign pid owner t s) (site : FailSite) :
    Safe (unsealedInv pid) (fun t s _ => Foreign pid owner t s) (failClosed site s) t := by
  have hnote : ∀ {t : Tr} {s : FdState}, Foreign pid owner t s →
      Foreign pid owner (t ++ [noted (.failClosed site)]) s := by
    intro t s h hpid
    obtain ⟨hseals, howner⟩ := h hpid.left
    exact ⟨by rw [seals_append, hseals]; rfl, howner⟩
  have hclosed : ∀ {t : Tr}, Foreign pid owner t s → Foreign pid owner t s.closed := fun h => h
  rw [failClosed]
  by_cases hc : s.countedActive
  · simp only [hc, if_true, note, bind_apply, get_apply, bind_done, perform_apply, bind_call,
      set_apply, safe_call, safe_done]
    have h' : Foreign pid owner (t ++ [noted .activeSessionsDec]) s :=
      h.snoc (o := .note .activeSessionsDec) rfl ()
    exact ⟨h.unsealed, fun _ => ⟨h'.unsealed, fun _ => hnote (hclosed h')⟩⟩
  · simp only [hc, note, bind_apply, get_apply, bind_done, perform_apply, set_apply, safe_call,
      safe_done, if_false, Bool.false_eq_true]
    exact ⟨h.unsealed, fun _ => hnote (hclosed h)⟩

/-- The guard at the head of `overlay_send` and `overlay_recv`. -/
theorem inheritedAfterFork_foreign (hne : owner ≠ pid) (h : Foreign pid owner t s)
    {f : Bool → FdAct α}
    (hf : ∀ t s, Foreign pid owner t s →
      Safe (unsealedInv pid) (fun t s _ => Foreign pid owner t s) (f true s) t) :
    Safe (unsealedInv pid) (fun t s _ => Foreign pid owner t s)
      ((inheritedAfterFork >>= f) s) t := by
  simp only [inheritedAfterFork, bind_apply, get_apply, bind_done, perform_apply, bind_call,
    safe_call]
  refine ⟨h.unsealed, fun r => ?_⟩
  by_cases hr : s.ownerPid = r
  · -- the answer is not `pid`, and nothing is asked of such a run
    have hno : ∀ u : Tr, ¬OwnPid pid (t ++ [⟨.getpid, r⟩] ++ u) := by
      intro u hpid
      have howner := (h hpid.left.left).2
      exact hne (howner.symm.trans (hr.trans (hpid r (by simp))))
    exact safe_of_extends (fun u _ _ hpid => absurd hpid (hno u))
      (fun u _ hpid => absurd hpid (hno u)) (fun u _ _ hpid => absurd hpid (hno u)) _
  · simp only [hr, if_false, bind_apply]
    refine safe_bind (safe_bind (safe_mono ?_ (failClosed_foreign (h.snoc rfl r) _)))
    intro t s _ h
    exact hf t s h

theorem retireIdleSession_foreign (h : Foreign pid owner t s) (epoch : ℕ) :
    Safe (unsealedInv pid) (fun t s _ => Foreign pid owner t s) (retireIdleSession epoch s) t := by
  simp only [retireIdleSession, bind_apply, get_apply, bind_done]
  split
  · refine safe_bind (safe_mono ?_ (failClosed_foreign h _))
    intro t s _ h
    exact h
  · exact h

theorem FdCall.run_foreign {P : Primitives} {c : FdCall} (hc : c.hooked = true) (hne : owner ≠ pid)
    (h : Foreign pid owner t s) :
    Safe (unsealedInv pid) (fun t s _ => Foreign pid owner t s) (c.run P s) t := by
  cases c with
  | send plaintext flags fuel =>
    rw [FdCall.run, bind_apply]
    refine safe_bind (safe_mono (fun t s a h => ?_)
      (inheritedAfterFork_foreign hne h fun t s h => ?_))
    · exact h
    · exact h
  | recv len hlen flags fuel =>
    rw [FdCall.run, bind_apply]
    refine safe_bind (safe_mono (fun t s a h => ?_)
      (inheritedAfterFork_foreign hne h fun t s h => ?_))
    · exact h
    · exact h
  | retire epoch =>
    rw [FdCall.run, bind_apply]
    exact safe_bind (safe_mono (fun t s a h => h) (retireIdleSession_foreign h epoch))
  | _ => cases hc

theorem reach_foreign {P : Primitives} {s₀ : FdState} {log : List (FdCall × FdRet)}
    {st : Status Resp FdCall FdState FdRet} (h : Reach (FdCall.run P) s₀ log t st)
    (hlog : ∀ e ∈ log, e.1.hooked = true) (hbusy : ∀ c p, st = .busy c p → c.hooked = true)
    (howner : s₀.ownerPid ≠ pid) :
    Held (unsealedInv pid) (fun _ t s => Foreign pid s₀.ownerPid t s) log t st :=
  reach_held_of (C := fun c => FdCall.hooked c = true) (fun _ => ⟨rfl, rfl⟩)
    (fun _ _ _ _ hc hJ => FdCall.run_foreign hc howner hJ) h hlog hbusy

theorem held_unsealed {log : List (FdCall × FdRet)} {st : Status Resp FdCall FdState FdRet}
    (h : Held (unsealedInv pid) (fun _ t s => Foreign pid owner t s) log t st)
    (hpid : OwnPid pid t) : seals t = [] := by
  rcases st with s | ⟨c, ⟨s, a⟩ | ⟨s, o, k⟩ | s⟩
  · exact (h hpid).1
  · exact (h hpid).1
  · exact h.1 hpid
  · exact h hpid

end

/-! ### What holds in every reachable tree -/

/-- A session that is inherited and not locked for good belongs to another process
of the tree; one that is locked for good was never used. -/
structure Session.Placed (ps : Tree) (pid : Pid) (se : Session) : Prop where
  foreign : se.inherited = true → se.holder ≠ some .gone →
    se.start.ownerPid ≠ pid ∧ ∃ q ∈ ps, q.pid = se.start.ownerPid
  gone : se.holder = some .gone → se.inherited = true ∧ se.trace = []

structure Tree.Ok (P : Primitives) (ps : Tree) : Prop where
  processes : ∀ p ∈ ps, p.Ok P
  placed : ∀ p ∈ ps, ∀ se ∈ p.sessions, se.Placed ps p.pid

section
variable {P : Primitives}

theorem Session.Ok.owner {pid : Pid} {se : Session} (h : se.Ok P pid)
    (hown : se.inherited = false) : se.start.ownerPid = pid := by
  obtain ⟨pre, c, hbirth, hf, -⟩ := h.opening hown
  refine h.born_getpid hown _ ?_
  rw [hbirth]
  exact List.mem_append_right _ (List.mem_map_of_mem hf.owner)

/-- A session that is not locked for good keeps its owner from call to call. -/
theorem Session.Ok.owner_idle {ps : Tree} {pid : Pid} {se : Session} (h : se.Ok P pid)
    (hplaced : se.Placed ps pid) (hfree : se.holder ≠ some .gone) {s : FdState}
    (hidle : se.status = .idle s) : s.ownerPid = se.start.ownerPid := by
  cases hinh : se.inherited with
  | false =>
    have hheld := h.held hinh hfree
    rw [hidle] at hheld
    exact hheld.history.ownerPid
  | true =>
    have hne := (hplaced.foreign hinh hfree).1
    have hheld := reach_foreign (h.reach hfree) h.log_hooked h.busy_hooked hne
    rw [hidle] at hheld
    exact (hheld h.getpid).2

theorem Session.Ok.inherited_unsealed {ps : Tree} {pid : Pid} {se : Session} (h : se.Ok P pid)
    (hplaced : se.Placed ps pid) (hinh : se.inherited = true) : seals se.trace = [] := by
  by_cases hgone : se.holder = some .gone
  · rw [(hplaced.gone hgone).2]
    rfl
  · have hne := (hplaced.foreign hinh hgone).1
    exact held_unsealed (reach_foreign (h.reach hgone) h.log_hooked h.busy_hooked hne) h.getpid

theorem Session.forked_ok (pid : Pid) (se : Session) : se.forked.Ok P pid where
  unlocked := fun _ => ⟨_, rfl⟩
  reach := fun _ => Reach.start
  log_hooked := fun e hmem => by cases hmem
  busy_hooked := fun c p hbusy => by cases hbusy
  getpid := fun r hmem => by cases hmem
  born := fun hown => by cases hown
  born_getpid := fun hown => by cases hown

theorem Process.forked_ok {p : Process} (h : p.Ok P) (pid : Pid) : (p.forked pid).Ok P where
  enabled := h.enabled
  sessions := fun se hmem => by
    obtain ⟨se, -, rfl⟩ := List.mem_map.mp hmem
    exact se.forked_ok pid
  threads := fun tid th htid => by cases htid
  finished := fun th hmem => by cases hmem

/-- The copies in a child with a new identifier are those of other processes. -/
theorem Session.Placed.forked {ps : Tree} {p : Process} (hp : p ∈ ps) {se : Session}
    (h : se.Ok P p.pid) (hplaced : se.Placed ps p.pid) {pid : Pid}
    (hfresh : ∀ q ∈ ps, q.pid ≠ pid) (ps' : Tree) : se.forked.Placed (ps ++ ps') pid := by
  refine ⟨fun _ hfree => ?_, fun _ => ⟨rfl, rfl⟩⟩
  have hnone : se.holder = none := by
    by_contra hne
    exact hfree (by simp [Session.forked, hne])
  obtain ⟨s, hidle⟩ := h.unlocked hnone
  have howner : se.forked.start.ownerPid = se.start.ownerPid := by
    have := h.owner_idle hplaced (by simp [hnone]) hidle
    simpa [Session.forked, hidle, Status.state] using this
  have hknown : ∃ q ∈ ps, q.pid = se.start.ownerPid := by
    cases hinh : se.inherited with
    | false => exact ⟨p, hp, (h.owner hinh).symm⟩
    | true => exact (hplaced.foreign hinh (by simp [hnone])).2
  obtain ⟨q, hq, hqpid⟩ := hknown
  rw [howner, ← hqpid]
  exact ⟨hfresh q hq, q, List.mem_append_left _ hq, rfl⟩

theorem Session.Placed.mono {ps ps' : Tree} {pid : Pid} {se : Session} (h : se.Placed ps pid)
    (hsub : ∀ q ∈ ps, ∃ q' ∈ ps', q'.pid = q.pid) : se.Placed ps' pid := by
  refine ⟨fun hinh hfree => ?_, h.gone⟩
  obtain ⟨hne, q, hq, hqpid⟩ := h.foreign hinh hfree
  obtain ⟨q', hq', hpid⟩ := hsub q hq
  exact ⟨hne, q', hq', hpid.trans hqpid⟩

theorem Session.Placed.step {ps : Tree} {p p' : Process} (hs : Process.Step P p p')
    (h : ∀ se ∈ p.sessions, se.Placed ps p.pid) : ∀ se ∈ p'.sessions, se.Placed ps p.pid := by
  intro se' hmem
  rcases hs.sessions hmem with hold | ⟨hholder, hnew | ⟨se, hse, hinh, hstart, hfree⟩⟩
  · exact h se' hold
  · exact ⟨fun hinh => (by rw [hnew] at hinh; cases hinh), fun hgone => absurd hgone hholder⟩
  · refine ⟨fun hinh' _ => ?_, fun hgone => absurd hgone hholder⟩
    rw [hstart]
    exact (h se hse).foreign (hinh ▸ hinh') hfree

theorem Tree.Ok.step {ps ps' : Tree} (h : Tree.Ok P ps) (hs : Tree.Step P ps ps') :
    Tree.Ok P ps' := by
  cases hs with
  | @inside i p p' hp hs =>
    have hmem := List.mem_of_getElem? hp
    obtain ⟨hok, hpid⟩ := (h.processes p hmem).step hs
    -- the step changes no identifier
    have hsub : ∀ q ∈ ps, ∃ q' ∈ ps.set i p', q'.pid = q.pid := by
      intro q hq
      obtain ⟨j, hj⟩ := List.mem_iff_getElem?.mp hq
      by_cases hij : i = j
      · subst hij
        rw [hp] at hj
        cases hj
        have hlt := (List.getElem?_eq_some_iff.mp hp).1
        exact ⟨p', List.mem_of_getElem? (List.getElem?_set_self hlt), hpid⟩
      · exact ⟨q, List.mem_of_getElem? ((List.getElem?_set_ne hij).trans hj), rfl⟩
    refine ⟨fun q hq => ?_, fun q hq se hse => ?_⟩
    · rcases List.mem_or_eq_of_mem_set hq with hq | rfl
      · exact h.processes q hq
      · exact hok
    · rcases List.mem_or_eq_of_mem_set hq with hq | rfl
      · exact (h.placed q hq se hse).mono hsub
      · rw [hpid]
        exact (Session.Placed.step hs (h.placed p hmem) se hse).mono hsub
  | @fork i p hp pid hfresh =>
    have hmem := List.mem_of_getElem? hp
    have hsub : ∀ q ∈ ps, ∃ q' ∈ ps ++ [p.forked pid], q'.pid = q.pid :=
      fun q hq => ⟨q, List.mem_append_left _ hq, rfl⟩
    refine ⟨fun q hq => ?_, fun q hq se hse => ?_⟩
    · rcases List.mem_append.mp hq with hq | hq
      · exact h.processes q hq
      · rw [List.mem_singleton.mp hq]
        exact Process.forked_ok (h.processes p hmem) pid
    · rcases List.mem_append.mp hq with hq | hq
      · exact (h.placed q hq se hse).mono hsub
      · rw [List.mem_singleton.mp hq] at hse ⊢
        obtain ⟨se, hse', rfl⟩ := List.mem_map.mp hse
        exact (h.placed p hmem se hse').forked hmem ((h.processes p hmem).sessions se hse') hfresh _

theorem Tree.Reachable.ok {pid : Pid} {ps : Tree}
    (h : Tree.Reachable P [Process.initial pid true] ps) : Tree.Ok P ps := by
  induction h with
  | start =>
    refine ⟨fun p hp => ?_, fun p hp se hse => ?_⟩
    · rw [List.mem_singleton.mp hp]
      exact Process.initial_ok pid
    · rw [List.mem_singleton.mp hp] at hse
      cases hse
  | step _ hs ih => exact ih.step hs

/-- The seals of a session of its own process, from counter zero on. -/
theorem Session.Ok.own_sealRun {pid : Pid} {se : Session} (h : se.Ok P pid)
    (hown : se.inherited = false) (hfree : se.holder ≠ some .gone) :
    seals se.trace = [] ∨ ∃ d₀ d, d₀.counter = 0 ∧ SealRun P d₀ (seals se.trace) d := by
  obtain ⟨pre, c, -, -, ho⟩ := h.opening hown
  refine (h.between hown hfree).sealRun.imp_right ?_
  rintro ⟨d₀, d, hout, hrun⟩
  cases hout with
  | active hphase => exact absurd hphase (ho.inactive _)
  | fresh _ hd => exact ⟨d₀, d, hd, hrun⟩

end

/-! ### Nonces -/

/-- Session `h` of process `i`. -/
def Tree.session (ps : Tree) (i : ℕ) (h : Handle) : Option Session :=
  ps[i]?.bind fun p => p.sessions[h]?

/-- The seal `x` is the one at place `a` of session `h` of process `i`. -/
def SealAt (ps : Tree) (i : ℕ) (h : Handle) (a : ℕ) (x : Seal) : Prop :=
  ∃ se, Tree.session ps i h = some se ∧ (seals se.trace)[a]? = some x

/-- Two sessions that were built apart from each other, and are not copies, have
never sealed with the same key. -/
def DistinctKeys (ps : Tree) : Prop :=
  ∀ i j h h' se se', Tree.session ps i h = some se → Tree.session ps j h' = some se' →
    se.inherited = false → se'.inherited = false → (i, h) ≠ (j, h') →
    ∀ x ∈ seals se.trace, ∀ y ∈ seals se'.trace, x.key ≠ y.key

section
variable {P : Primitives} {ps : Tree}

theorem Tree.Ok.sealRun (h : Tree.Ok P ps) {i : ℕ} {k : Handle} {se : Session}
    (hse : Tree.session ps i k = some se) :
    seals se.trace = [] ∨ se.inherited = false ∧
      ∃ d₀ d, d₀.counter = 0 ∧ SealRun P d₀ (seals se.trace) d := by
  obtain ⟨p, hp, hse⟩ := Option.bind_eq_some_iff.mp hse
  have hpmem := List.mem_of_getElem? hp
  have hsemem := List.mem_of_getElem? hse
  have hok := (h.processes p hpmem).sessions se hsemem
  have hplaced := h.placed p hpmem se hsemem
  cases hinh : se.inherited with
  | true => exact .inl (hok.inherited_unsealed hplaced hinh)
  | false =>
    have hfree : se.holder ≠ some .gone := fun hgone => by
      rw [(hplaced.gone hgone).1] at hinh
      cases hinh
    exact (hok.own_sealRun hinh hfree).imp_right fun hrun => ⟨rfl, hrun⟩

end

/-- In every run of a process tree no pair of key and nonce is used twice, the
nonces of each session count up from zero with one key, and `seal` refuses before
the counter wraps. -/
theorem Tree.nonce_unique {P : Primitives} {pid : Pid} {ps : Tree}
    (hps : Tree.Reachable P [Process.initial pid true] ps) (hkeys : DistinctKeys ps) :
    (∀ i j h h' a b x y, SealAt ps i h a x → SealAt ps j h' b y → x.key = y.key →
      x.nonce = y.nonce → i = j ∧ h = h' ∧ a = b) ∧
    (∀ i h, ∃ key, ∀ a x, SealAt ps i h a x →
      x.key = key ∧ ∃ c : UInt64, c.toNat = a ∧ x.nonce = nonceFromCounter c) ∧
    (∀ (d : Direction) (pt : Bytes), d.counter = u64Max →
      d.seal P pt = .error .nonceExhausted) ∧
    ∀ (d d' : Direction) (pt ct : Bytes), d.seal P pt = .ok (d', ct) →
      d'.key = d.key ∧ d'.counter.toNat = d.counter.toNat + 1 := by
  have hok := hps.ok
  refine ⟨?_, ?_, ?_, ?_⟩
  · rintro i j h h' a b x y ⟨se, hse, hx⟩ ⟨se', hse', hy⟩ hkey hnonce
    have hrun := (hok.sealRun hse).resolve_left (List.ne_nil_of_mem (List.mem_of_getElem? hx))
    have hrun' := (hok.sealRun hse').resolve_left (List.ne_nil_of_mem (List.mem_of_getElem? hy))
    by_cases hplace : (i, h) = (j, h')
    · cases hplace
      rw [hse] at hse'
      cases hse'
      obtain ⟨-, d₀, d, -, hrun⟩ := hrun
      exact ⟨rfl, rfl, hrun.nonce_inj hx hy hnonce⟩
    · exact absurd hkey (hkeys i j h h' se se' hse hse' hrun.1 hrun'.1 hplace x
        (List.mem_of_getElem? hx) y (List.mem_of_getElem? hy))
  · intro i h
    by_cases hex : ∃ se, Tree.session ps i h = some se ∧ seals se.trace ≠ []
    · obtain ⟨se, hse, hne⟩ := hex
      obtain ⟨-, d₀, d, hzero, hrun⟩ := (hok.sealRun hse).resolve_left hne
      refine ⟨d₀.key, ?_⟩
      rintro a x ⟨se', hse', hx⟩
      rw [hse] at hse'
      cases hse'
      obtain ⟨c, hc, hby⟩ := hrun.getElem? hx
      rw [hzero] at hc
      exact ⟨hby.key_eq, c, by simpa using hc, hby.nonce_eq⟩
    · refine ⟨List.Vector.replicate 32 0, ?_⟩
      rintro a x ⟨se, hse, hx⟩
      exact absurd ⟨se, hse, List.ne_nil_of_mem (List.mem_of_getElem? hx)⟩ hex
  · intro d pt hmax
    rw [Direction.seal, if_pos hmax]
  · intro d d' pt ct hseal
    obtain ⟨hc, -, rfl, -⟩ := Direction.seal_eq_ok.mp hseal
    exact ⟨rfl, advance_toNat hc⟩

/-- A process sends `msg` on its descriptor 3. -/
def sending (msg : Bytes) (p : Process) : Process :=
  (Process.invoke specimen 0 (.send 3 (.bytes msg) 0) 8 100 (p, fallbackKernel [100])).1

theorem sending_reachable (msg : Bytes) (p : Process) :
    Process.Reachable specimen p (sending msg p) :=
  Process.Reachable.invoke (s := (p, _)) _ _ _ .start

/-- The client of `fallbackClient` forks after its first record; then the parent and
the child, as process 8, both send. -/
def forkedClient : Tree :=
  [sending (ascii "parent") (fallbackClient [100, 100]).1,
    sending (ascii "child") ((fallbackClient [100, 100]).1.forked 8)]

theorem forkedClient_reachable :
    Tree.Reachable specimen [Process.initial 7 true] forkedClient := by
  have h₁ : Tree.Reachable specimen [Process.initial 7 true] [(fallbackClient [100, 100]).1] :=
    Tree.Reachable.inside (i := 0) .start rfl (fallbackClient_reachable _)
  have hpid : ∀ q ∈ [(fallbackClient [100, 100]).1], q.pid ≠ 8 := by
    intro q hq
    rw [List.mem_singleton.mp hq]
    decide +kernel
  have h₂ := h₁.step (.fork (i := 0) rfl 8 hpid)
  have h₃ := h₂.inside (i := 0) rfl (sending_reachable (ascii "parent") _)
  exact h₃.inside (i := 1) rfl (sending_reachable (ascii "child") _)

theorem distinctKeys_of_one {ps : Tree}
    (h : ps.map (fun p => p.sessions.map Session.inherited) = [[false], [true]]) :
    DistinctKeys ps := by
  have honly : ∀ i k se, Tree.session ps i k = some se → se.inherited = false →
      (i, k) = (0, 0) := by
    intro i k se hse hown
    obtain ⟨p, hp, hse⟩ := Option.bind_eq_some_iff.mp hse
    have hrow := congrArg (·[i]?) h
    have hcell : (p.sessions.map Session.inherited)[k]? = some false := by
      rw [List.getElem?_map, hse, Option.map_some, hown]
    simp only [List.getElem?_map, hp, Option.map_some] at hrow
    match i, k, hrow with
    | 0, 0, _ => rfl
    | 0, k + 1, hrow =>
      rw [Option.some_inj.mp hrow] at hcell
      cases hcell
    | 1, k, hrow =>
      rw [Option.some_inj.mp hrow] at hcell
      cases k <;> cases hcell
    | i + 2, k, hrow => cases hrow
  intro i j k k' se se' hse hse' hown hown' hne
  exact absurd ((honly i k se hse hown).trans (honly j k' se' hse' hown').symm) hne

/-- Both records are sealed by the parent: the child is refused. -/
theorem Tree.nonce_unique_forkedClient :
    (forkedClient.map fun p => p.sessions.map fun se => (se.inherited, (seals se.trace).length)) =
      [[(false, 2)], [(true, 0)]] ∧
    ∀ i j h h' a b x y, SealAt forkedClient i h a x → SealAt forkedClient j h' b y →
      x.key = y.key → x.nonce = y.nonce → i = j ∧ h = h' ∧ a = b :=
  ⟨by decide +kernel,
    (Tree.nonce_unique forkedClient_reachable (distinctKeys_of_one (by decide +kernel))).1⟩

end SyntriassOverlay

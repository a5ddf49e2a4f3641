import SyntriassOverlay.Phases
import SyntriassOverlay.Schedule
import Mathlib.Algebra.BigOperators.Ring.Finset

/-!
# The gauge of active sessions (fd_state.rs:241-266, 326-336)

`activate`, `fail_closed` and `Drop` move one gauge for all sessions of a process. A session
lives as long as there is a reference to it: in the registry, with a thread that has looked it
up and has not returned from its call, or with the thread that reloads the configuration,
which takes the references of a whole registry and gives them up one after the other. A
session without a reference is dropped at some later time.
-/

namespace SyntriassOverlay
open Crypto Resumption

/-! ### One session -/

/-- What a call does to the gauge. -/
def Ev.gauge : Ev Resp → ℤ
  | ⟨.note .activeSessionsInc, _⟩ => 1
  | ⟨.note .activeSessionsDec, _⟩ => -1
  | _ => 0

def gaugeMoves (t : Tr) : ℤ := (t.map Ev.gauge).sum

def FdPhase.isActive : FdPhase → Bool
  | .active _ => true
  | _ => false

/-- A session is counted while it is active, and the gauge shows it. -/
structure Counted (t : Tr) (s : FdState) : Prop where
  counted : s.countedActive = s.phase.isActive
  moves : gaugeMoves t = if s.countedActive then 1 else 0

theorem gaugeMoves_snoc (t : Tr) (e : Ev Resp) :
    gaugeMoves (t ++ [e]) = gaugeMoves t + Ev.gauge e := by
  simp [gaugeMoves]

theorem Ev.gauge_of_not_counting {o : Op} (r : Resp o) (ho : o.counting = false) :
    Ev.gauge ⟨o, r⟩ = 0 := by
  cases o with
  | note n => cases n <;> first | rfl | cases ho
  | _ => rfl

theorem FdPhase.isActive_of_handshaking {p : FdPhase} (h : p.handshaking = true) :
    p.isActive = false := by
  cases p <;> first | rfl | cases h

theorem counted_rule : SessionRule False Counted where
  same := fun t s s' hphase hc h => ⟨by rw [hphase, hc]; exact h.counted, by rw [hc]; exact h.moves⟩
  call := fun t s o r ho h => by
    refine ⟨h.counted, ?_⟩
    rw [gaugeMoves_snoc, Ev.gauge_of_not_counting r ho, add_zero]
    exact h.moves
  keys := fun t s s' keys keys' hphase hphase' hc h => by
    have hcounted := h.counted
    rw [hphase] at hcounted
    exact ⟨by rw [hphase', hc]; exact hcounted, by rw [hc]; exact h.moves⟩
  taken := fun t s s' hhs hphase hc h => by
    have hcounted := h.counted
    rw [FdPhase.isActive_of_handshaking (hhs.resolve_right id)] at hcounted
    exact ⟨by rw [hphase, hc]; exact hcounted, by rw [hc]; exact h.moves⟩
  close := fun t s hc h => by
    have hmoves := h.moves
    rw [hc] at hmoves
    exact ⟨rfl, hmoves⟩
  closeCounted := fun t s hc h => by
    have hmoves := h.moves
    rw [hc] at hmoves
    exact ⟨rfl, by rw [gaugeMoves_snoc, hmoves]; rfl⟩
  activate := fun t s keys hc h => by
    have hmoves := h.moves
    rw [hc] at hmoves
    exact ⟨rfl, by rw [gaugeMoves_snoc, hmoves]; rfl⟩
  activateCounted := fun t s keys hc h => by
    have hmoves := h.moves
    rw [hc] at hmoves
    exact ⟨rfl, hmoves⟩

section
variable {P : Primitives} {pid : Pid} {se : Session}

theorem Opening.not_active {c : Tr} {st : FdState} {role : Role} (h : Opening P c st role) :
    st.phase.isActive = false := by
  cases h with
  | failed hphase | responder hphase | hybrid hphase | fallback hphase => rw [hphase]; rfl

theorem Session.Ok.counted (h : se.Ok P pid) (hown : se.inherited = false)
    (hholder : se.holder ≠ some .gone) : Counted se.trace se.status.state := by
  obtain ⟨pre, c, -, hfresh, hopen⟩ := h.opening hown
  have hstart : Counted [] se.start := by
    refine ⟨by rw [hfresh.countedActive, hopen.not_active], ?_⟩
    rw [hfresh.countedActive]
    rfl
  refine reach_holds (C := fun c => c.hooked = true) (fun c hc => ?_) hstart (h.reach hholder)
    h.log_hooked h.busy_hooked
  exact FdCall.run_holds counted_rule c fun fuel heq => by
    subst heq
    cases hc

end

/-! ### References -/

/-- A hook enters a session right after the lookup that found it. -/
def clonedInv : Obligation HookResp Unit where
  call t _ o := ∀ h c, o.enters = some (h, c) → ∃ fd t₀, t = t₀ ++ [⟨.lookup fd, some h⟩]
  cut _ _ := True

theorem clonedInv_outside {o : HookOp} (ho : o.enters = none) (t : Trace HookResp) :
    clonedInv.call t () o := by
  intro h c heq
  rw [ho] at heq
  cases heq

theorem clonedInv_rule (P : Primitives) (c : HookCall) : HookRule P clonedInv c where
  calm := fun t o _ ho => clonedInv_outside ho t
  enter := fun t fd h c' o ho h' c'' heq => by
    rw [ho] at heq
    cases heq
    exact ⟨fd, t, rfl⟩
  cut := fun _ => trivial
  real := fun t _ => clonedInv_outside rfl t
  insert := fun _ _ _ _ _ _ _ => clonedInv_outside rfl _
  orInsert := fun _ _ _ _ _ _ => clonedInv_outside rfl _
  remove := fun _ _ => clonedInv_outside rfl _

/-- The thread has the reference in hand: it has looked the session up and has not returned
from its call. -/
def Thread.HoldsClone (th : Thread) (h : Handle) : Prop :=
  ∃ o k c, th.prog = .call () o k ∧ o.enters = some (h, c)

theorem Thread.Ok.cloned {P : Primitives} {pid : Pid} {th : Thread} (hok : th.Ok P pid)
    {h : Handle} (hheld : th.HoldsClone h) :
    ∃ fd t₀, th.trace = t₀ ++ [⟨.lookup fd, some h⟩] := by
  obtain ⟨o, k, c, hprog, henter⟩ := hheld
  have hruns := hok.runs
  rw [hprog, HookCall.run] at hruns
  exact (safe_at (HookCall.body_safe (clonedInv_rule P th.call) th.fuel) hruns).1 h c henter

theorem Enters.enters {o : HookOp} {h : Handle} {c : FdCall} {a : FdRet} {r : HookResp o}
    (he : Enters o h c a r) : o.enters = some (h, c) := by
  cases he <;> rfl

theorem Effect.enters {p p' : Process} {birth : Trace HookResp} {o : HookOp} {r : HookResp o}
    (he : Effect p birth o r p') : o.enters = none := by
  cases he <;> rfl

theorem Thread.HoldsClone.unique {th : Thread} {h h' : Handle} {o : HookOp} {c : FdCall}
    {k : HookResp o → Prog HookResp Unit HookRet} (hheld : th.HoldsClone h')
    (hprog : th.prog = .call () o k) (henter : o.enters = some (h, c)) : h' = h := by
  obtain ⟨o', k', c', hprog', henter'⟩ := hheld
  rw [hprog] at hprog'
  cases hprog'
  rw [henter] at henter'
  cases henter'
  rfl

/-- The registry refers to sessions of the process, and a thread that has a session locked has
its reference in hand. -/
structure Process.Wired (p : Process) : Prop where
  registered : ∀ fd h, p.registry fd = some h → h < p.sessions.length
  locked : ∀ h se tid, p.sessions[h]? = some se → se.holder = some (.thread tid) →
    ∃ th, p.threads tid = some th ∧ th.HoldsClone h

namespace Process
variable {P : Primitives} {p p' : Process}

theorem Wired.initial (pid : Pid) (enabled : Bool) : (Process.initial pid enabled).Wired where
  registered := fun _ _ h => by cases h
  locked := fun _ _ _ h => by cases h

theorem Wired.unlocked (h : p.Wired) {tid : Tid}
    (hfree : ∀ th i, p.threads tid = some th → ¬ th.HoldsClone i) :
    ∀ (i : Handle) (se : Session), p.sessions[i]? = some se → se.holder ≠ some (.thread tid) := by
  intro i se hse hholder
  obtain ⟨th, hth, hheld⟩ := h.locked i se tid hse hholder
  exact hfree th i hth hheld

theorem Wired.setThread (h : p.Wired) {tid : Tid} {new : Option Thread}
    (hfree : ∀ (i : Handle) (se : Session), p.sessions[i]? = some se →
      se.holder ≠ some (.thread tid)) :
    (p.setThread tid new).Wired where
  registered := h.registered
  locked := fun i se tid' hse hholder => by
    have hne : tid' ≠ tid := by
      rintro rfl
      exact hfree i se hse hholder
    obtain ⟨th, hth, hheld⟩ := h.locked i se tid' hse hholder
    exact ⟨th, by simpa [Process.setThread, Function.update_of_ne hne] using hth, hheld⟩

theorem getElem?_setSession {i j : Handle} {se se' : Session}
    (h : (p.setSession i se).sessions[j]? = some se') :
    i = j ∧ se' = se ∨ i ≠ j ∧ p.sessions[j]? = some se' := by
  by_cases hij : i = j
  · subst hij
    rw [Process.setSession, List.getElem?_set_self'] at h
    cases hold : p.sessions[i]? with
    | none => simp [hold] at h
    | some old =>
      rw [hold] at h
      exact .inl ⟨rfl, (Option.some.inj h).symm⟩
  · rw [Process.setSession, List.getElem?_set_ne hij] at h
    exact .inr ⟨hij, h⟩

theorem Wired.setSession (h : p.Wired) {i : Handle} {se : Session}
    (hlock : ∀ tid, se.holder = some (.thread tid) →
      ∃ th, p.threads tid = some th ∧ th.HoldsClone i) : (p.setSession i se).Wired where
  registered := fun fd j hj => by
    simpa [Process.setSession] using h.registered fd j hj
  locked := fun j se' tid hse hholder => by
    rcases getElem?_setSession hse with ⟨rfl, rfl⟩ | ⟨-, hse⟩
    · exact hlock tid hholder
    · exact h.locked j se' tid hse hholder

theorem Wired.addSession (h : p.Wired) {fd : Fd} {se : Session} (hfree : se.holder = none) :
    (p.addSession fd se).Wired where
  registered := fun fd' j hj => by
    simp only [Process.addSession, List.length_append, List.length_singleton] at hj ⊢
    by_cases hfd : fd' = fd
    · subst hfd
      rw [Function.update_self] at hj
      cases hj
      exact Nat.lt_succ_self _
    · rw [Function.update_of_ne hfd] at hj
      exact Nat.lt_succ_of_lt (h.registered fd' j hj)
  locked := fun j se' tid hse hholder => by
    rw [Process.addSession, List.getElem?_append] at hse
    split at hse
    · exact h.locked j se' tid hse hholder
    · rw [List.mem_singleton.mp (List.mem_of_getElem? hse), hfree] at hholder
      cases hholder

theorem Wired.effect (h : p.Wired) {birth : Trace HookResp} {o : HookOp} {r : HookResp o}
    (he : Effect p birth o r p') : p'.Wired := by
  cases he with
  | insert fd st | orInsertVacant fd st => exact h.addSession rfl
  | remove fd =>
    refine ⟨fun fd' j hj => ?_, h.locked⟩
    by_cases hfd : fd' = fd
    · subst hfd
      simp at hj
    · exact h.registered fd' j (by simpa [Function.update_of_ne hfd] using hj)
  | _ => exact h

theorem Wired.step (h : p.Wired) (hs : Process.Step P p p') : p'.Wired := by
  cases hs with
  | call htid c fuel =>
    refine h.setThread (h.unlocked fun th i hth => ?_)
    rw [htid] at hth
    cases hth
  | @hook tid th o k r p₁ htid hprog he =>
    refine (h.effect he).setThread ((h.effect he).unlocked fun th' i hth hheld => ?_)
    have hsame : p₁.threads = p.threads := by cases he <;> rfl
    rw [hsame, htid] at hth
    cases hth
    obtain ⟨o', k', c, hprog', henter⟩ := hheld
    rw [hprog] at hprog'
    cases hprog'
    rw [he.enters] at henter
    cases henter
  | @lock tid th o k i c a r se s htid hprog he hse hidle hfree =>
    refine h.setSession fun tid' hholder => ?_
    cases hholder
    exact ⟨th, htid, o, k, c, hprog, he.enters⟩
  | answer hse hbusy hholder r hr =>
    exact h.setSession fun tid hlock => h.locked _ _ tid hse hlock
  | @unlock tid th o k i c a r se s htid hprog he hse hdone hholder =>
    have hreturned : (p.setSession i
        { se with log := se.log ++ [(c, a)], status := .idle s, holder := none }).Wired :=
      h.setSession fun tid' hlock => by cases hlock
    refine hreturned.setThread fun j se' hse' hlock => ?_
    rcases getElem?_setSession hse' with ⟨rfl, rfl⟩ | ⟨hij, hse'⟩
    · cases hlock
    · obtain ⟨th', hth, hheld⟩ := h.locked j se' tid hse' hlock
      rw [htid] at hth
      cases hth
      exact hij (hheld.unique hprog he.enters).symm
  | reloadLock epoch hse hidle hfree | reloadUnlock hse hdone hholder =>
    exact h.setSession fun tid hlock => by cases hlock
  | @leave tid th a htid hprog =>
    have hgone : (p.setThread tid none).Wired := by
      refine h.setThread (h.unlocked fun th' i hth hheld => ?_)
      rw [htid] at hth
      cases hth
      obtain ⟨o, k, c, hprog', -⟩ := hheld
      rw [hprog] at hprog'
      cases hprog'
    exact ⟨hgone.registered, hgone.locked⟩

end Process

/-! ### Sessions that live and sessions that are dropped -/

/-- A process with the references that the thread that reloads the configuration has taken,
the sessions that are dropped, and the gauge. -/
structure Ledger where
  process : Process
  clones : List Handle
  dropped : Finset Handle
  activeSessions : ℤ

def Ledger.initial (pid : Pid) : Ledger := ⟨.initial pid true, [], ∅, 0⟩

/-- There is a reference to the session. -/
inductive Ledger.Referenced (l : Ledger) (h : Handle) : Prop
  | registry {fd : Fd} (hreg : l.process.registry fd = some h)
  | thread {tid : Tid} {th : Thread} (htid : l.process.threads tid = some th)
      (hheld : th.HoldsClone h)
  | reloader (hmem : h ∈ l.clones)

/-- What the calls of one session have done to the gauge. -/
def Process.moves (p : Process) (h : Handle) : ℤ :=
  match p.sessions[h]? with
  | some se => SyntriassOverlay.gaugeMoves se.trace
  | none => 0

def Process.gaugeMoves (p : Process) : ℤ := ∑ h ∈ Finset.range p.sessions.length, p.moves h

/-- One step of the process moves the gauge as the calls do that are made in it; the reload
thread locks sessions to which it has a reference. It takes references to sessions that are
registered and gives up those it is done with. A session without a reference is dropped. -/
inductive Ledger.Step (P : Primitives) (l : Ledger) : Ledger → Prop
  | runs {p' : Process} (hs : Process.Step P l.process p')
      (hreload : ∀ h se, p'.sessions[h]? = some se → se.holder = some .reloader → h ∈ l.clones) :
      Step P l { l with
        process := p', activeSessions := l.activeSessions + (p'.gaugeMoves - l.process.gaugeMoves) }
  | snapshot (hs : List Handle) (hreg : ∀ h ∈ hs, ∃ fd, l.process.registry fd = some h) :
      Step P l { l with clones := l.clones ++ hs }
  | release (h : Handle)
      (hdone : ∀ se, l.process.sessions[h]? = some se → se.holder ≠ some .reloader) :
      Step P l { l with clones := l.clones.filter (· ≠ h) }
  | drop {h : Handle} {se : Session} (hse : l.process.sessions[h]? = some se)
      (hlive : h ∉ l.dropped) (href : ¬ l.Referenced h) :
      Step P l { l with dropped := insert h l.dropped,
                        activeSessions :=
                          if se.status.state.countedActive then l.activeSessions - 1
                          else l.activeSessions }

inductive Ledger.Reachable (P : Primitives) (pid : Pid) : Ledger → Prop
  | start : Reachable P pid (.initial pid)
  | step {l l' : Ledger} : Reachable P pid l → Ledger.Step P l l' → Reachable P pid l'

/-- What holds of every ledger: dropped sessions have no reference, and the gauge has moved as
the sessions that are not dropped have moved it. -/
structure Ledger.Ok (P : Primitives) (l : Ledger) : Prop where
  process : l.process.Ok P
  own : ∀ se ∈ l.process.sessions, se.inherited = false ∧ se.holder ≠ some .gone
  wired : l.process.Wired
  reloading : ∀ (h : Handle) (se : Session), l.process.sessions[h]? = some se →
    se.holder = some .reloader → h ∈ l.clones
  dropped_lt : ∀ h ∈ l.dropped, h < l.process.sessions.length
  unreferenced : ∀ h ∈ l.dropped, ¬ l.Referenced h
  gauge : l.activeSessions = l.process.gaugeMoves - ∑ h ∈ l.dropped, l.process.moves h

section
variable {P : Primitives} {pid : Pid} {l l' : Ledger} {p' : Process} {h : Handle}

theorem Ledger.Ok.referenced (hok : l.Ok P) {se : Session}
    (hse : l.process.sessions[h]? = some se) (hlocked : se.holder ≠ none) : l.Referenced h := by
  cases hholder : se.holder with
  | none => exact absurd hholder hlocked
  | some holder =>
    cases holder with
    | thread tid =>
      obtain ⟨th, hth, hheld⟩ := hok.wired.locked h se tid hse hholder
      exact .thread hth hheld
    | reloader => exact .reloader (hok.reloading h se hse hholder)
    | gone => exact absurd hholder (hok.own se (List.mem_of_getElem? hse)).2

theorem Process.Ok.locked {p : Process} (hok : p.Ok P) {se : Session} {c : FdCall}
    {q : Prog Resp FdState FdRet} (hse : p.sessions[h]? = some se) (hbusy : se.status = .busy c q) :
    se.holder ≠ none := by
  intro hnone
  obtain ⟨s, hidle⟩ := (hok.sessions se (List.mem_of_getElem? hse)).unlocked hnone
  rw [hbusy] at hidle
  cases hidle

theorem Process.setSession_other {p : Process} {i j : Handle} {se : Session} (hne : i ≠ j) :
    (p.setSession i se).sessions[j]? = p.sessions[j]? := by
  rw [Process.setSession, List.getElem?_set_ne hne]

/-- A step leaves a session without a reference as it is. -/
theorem Ledger.Ok.frozen (hok : l.Ok P) (hs : Process.Step P l.process p')
    (hreload : ∀ (h : Handle) (se : Session), p'.sessions[h]? = some se →
      se.holder = some .reloader → h ∈ l.clones)
    (hlt : h < l.process.sessions.length) (hfree : ¬ l.Referenced h) :
    p'.sessions[h]? = l.process.sessions[h]? := by
  have hother : ∀ {i : Handle} {se : Session}, l.Referenced i →
      (l.process.setSession i se).sessions[h]? = l.process.sessions[h]? := by
    intro i se href
    refine Process.setSession_other ?_
    rintro rfl
    exact hfree href
  cases hs with
  | call | leave => rfl
  | hook htid hprog he =>
    cases he with
    | insert | orInsertVacant => exact List.getElem?_append_left hlt
    | _ => rfl
  | lock htid hprog he => exact hother (.thread htid ⟨_, _, _, hprog, he.enters⟩)
  | answer hse hbusy => exact hother (hok.referenced hse (hok.process.locked hse hbusy))
  | unlock htid hprog he => exact hother (.thread htid ⟨_, _, _, hprog, he.enters⟩)
  | @reloadLock i se s epoch hse =>
    have hi : i < l.process.sessions.length := (List.getElem?_eq_some_iff.mp hse).1
    refine hother (.reloader (hreload i { se with
      status := .busy (.retire epoch) ((FdCall.retire epoch).run P s),
      holder := some .reloader } ?_ rfl))
    simp [Process.setSession, hi]
  | reloadUnlock hse hdone => exact hother (hok.referenced hse (hok.process.locked hse hdone))

/-- A thread stays where it is, is new, or has made a call; a lookup gives what is registered. -/
theorem Process.Step.threads {p : Process} (hs : Process.Step P p p') {tid : Tid} {th' : Thread}
    (hth : p'.threads tid = some th') :
    p.threads tid = some th' ∨ th'.trace = [] ∨
      ∃ (t : Trace HookResp) (o : HookOp) (r : HookResp o), th'.trace = t ++ [⟨o, r⟩] ∧
        ∀ fd h, (⟨o, r⟩ : Ev HookResp) = ⟨.lookup fd, some h⟩ → p.registry fd = some h := by
  have hupdate : ∀ {q : Process} {tid' : Tid} {new : Option Thread}, q.threads = p.threads →
      (q.setThread tid' new).threads tid = some th' →
      p.threads tid = some th' ∨ new = some th' := by
    intro q tid' new hsame hnew
    by_cases htid : tid = tid'
    · subst htid
      rw [Process.setThread_self] at hnew
      exact .inr hnew
    · rw [← hsame]
      exact .inl (by simpa [Process.setThread, Function.update_of_ne htid] using hnew)
  cases hs with
  | call htid c fuel =>
    refine (hupdate rfl hth).imp_right fun hnew => .inl ?_
    cases hnew
    rfl
  | @hook tid₀ th o k r p₁ htid hprog he =>
    have hsame : p₁.threads = p.threads := by cases he <;> rfl
    refine (hupdate hsame hth).imp_right fun hnew => .inr ⟨th.trace, o, r, ?_, ?_⟩
    · cases hnew
      rfl
    · intro fd h heq
      cases he with
      | lookup fd' =>
        injection heq with hop hr
        cases hop
        exact hr
      | _ => cases heq
  | @unlock tid₀ th o k i c a r se s htid hprog he =>
    refine (hupdate rfl hth).imp_right fun hnew => .inr ⟨th.trace, o, r, ?_, ?_⟩
    · cases hnew
      rfl
    · intro fd h heq
      cases he <;> cases heq
  | leave htid hprog => exact .inl ((hupdate rfl hth).resolve_right fun hnew => by cases hnew)
  | _ => exact .inl hth

theorem Ledger.Ok.lost (hok : l.Ok P) (hs : Process.Step P l.process p')
    (hlt : h < l.process.sessions.length) (hfree : ¬ l.Referenced h) {gauge : ℤ} :
    ¬ Ledger.Referenced { l with process := p', activeSessions := gauge } h := by
  intro href
  cases href with
  | registry hreg =>
    rcases hs.registry hreg with hold | hnew
    · exact hfree (.registry hold)
    · exact absurd hlt (hnew ▸ Nat.lt_irrefl _)
  | thread htid hheld =>
    obtain ⟨fd, t₀, htrace⟩ := ((hok.process.step hs).1.threads _ _ htid).cloned hheld
    rcases hs.threads htid with hold | hnew | ⟨t, o, r, ht, hlookup⟩
    · exact hfree (.thread hold hheld)
    · rw [hnew] at htrace
      simp at htrace
    · rw [ht] at htrace
      have hlast := (List.append_inj' htrace rfl).2
      exact hfree (.registry (hlookup fd h (List.singleton_inj.mp hlast)))
  | reloader hmem => exact hfree (.reloader hmem)

theorem Ledger.Ok.runs (hok : l.Ok P) (hs : Process.Step P l.process p')
    (hreload : ∀ (h : Handle) (se : Session), p'.sessions[h]? = some se →
      se.holder = some .reloader → h ∈ l.clones) :
    Ledger.Ok P { l with process := p',
                         activeSessions :=
                           l.activeSessions + (p'.gaugeMoves - l.process.gaugeMoves) } where
  process := (hok.process.step hs).1
  own := Process.own_step hok.own hs
  wired := hok.wired.step hs
  reloading := hreload
  dropped_lt := fun h hmem => by
    have hlt := hok.dropped_lt h hmem
    have hsame := hok.frozen hs hreload hlt (hok.unreferenced h hmem)
    rw [List.getElem?_eq_getElem hlt] at hsame
    exact (List.getElem?_eq_some_iff.mp hsame).1
  unreferenced := fun h hmem =>
    hok.lost hs (hok.dropped_lt h hmem) (hok.unreferenced h hmem)
  gauge := by
    -- a dropped session has moved the gauge for the last time
    have hfrozen : ∑ h ∈ l.dropped, p'.moves h = ∑ h ∈ l.dropped, l.process.moves h := by
      refine Finset.sum_congr rfl fun h hmem => ?_
      have hsame := hok.frozen hs hreload (hok.dropped_lt h hmem) (hok.unreferenced h hmem)
      rw [Process.moves, Process.moves, hsame]
    have hgauge := hok.gauge
    dsimp only
    rw [hfrozen]
    omega

theorem Ledger.Referenced.of_clones (href : l'.Referenced h) (hp : l'.process = l.process)
    (hclones : h ∈ l'.clones → l.Referenced h) : l.Referenced h := by
  cases href with
  | registry hreg => exact .registry (hp ▸ hreg)
  | thread htid hheld => exact .thread (hp ▸ htid) hheld
  | reloader hmem => exact hclones hmem

/-- What a session of the process has done to the gauge is whether it is active. -/
theorem Ledger.Ok.counted (hok : l.Ok P) {se : Session} (hse : l.process.sessions[h]? = some se) :
    Counted se.trace se.status.state := by
  have hmem := List.mem_of_getElem? hse
  exact (hok.process.sessions se hmem).counted (hok.own se hmem).1 (hok.own se hmem).2

theorem Ledger.Ok.drop (hok : l.Ok P) {se : Session} (hse : l.process.sessions[h]? = some se)
    (hlive : h ∉ l.dropped) (href : ¬ l.Referenced h) :
    Ledger.Ok P { l with dropped := insert h l.dropped,
                         activeSessions :=
                           if se.status.state.countedActive then l.activeSessions - 1
                           else l.activeSessions } where
  process := hok.process
  own := hok.own
  wired := hok.wired
  reloading := hok.reloading
  dropped_lt := fun i hmem => by
    rcases Finset.mem_insert.mp hmem with rfl | hmem
    · exact (List.getElem?_eq_some_iff.mp hse).1
    · exact hok.dropped_lt i hmem
  unreferenced := fun i hmem hi => by
    have hold : l.Referenced i := hi.of_clones rfl fun hclone => .reloader hclone
    rcases Finset.mem_insert.mp hmem with rfl | hmem
    · exact href hold
    · exact hok.unreferenced i hmem hold
  gauge := by
    have hmoves : l.process.moves h = if se.status.state.countedActive then 1 else 0 := by
      rw [Process.moves, hse]
      exact (hok.counted hse).moves
    have hgauge := hok.gauge
    dsimp only
    rw [Finset.sum_insert hlive, hmoves]
    split <;> omega

theorem Ledger.Ok.step (hok : l.Ok P) (hs : Ledger.Step P l l') : l'.Ok P := by
  cases hs with
  | runs hs hreload => exact hok.runs hs hreload
  | snapshot hs hreg =>
    refine ⟨hok.process, hok.own, hok.wired, fun h se hse hheld => ?_, hok.dropped_lt,
      fun h hmem href => hok.unreferenced h hmem (href.of_clones rfl fun hclone => ?_), hok.gauge⟩
    · exact List.mem_append_left _ (hok.reloading h se hse hheld)
    · rcases List.mem_append.mp hclone with hclone | hclone
      · exact .reloader hclone
      · obtain ⟨fd, hfd⟩ := hreg h hclone
        exact .registry hfd
  | release i hdone =>
    refine ⟨hok.process, hok.own, hok.wired, fun h se hse hheld => ?_, hok.dropped_lt,
      fun h hmem href => hok.unreferenced h hmem (href.of_clones rfl fun hclone => ?_), hok.gauge⟩
    · refine List.mem_filter.mpr ⟨hok.reloading h se hse hheld, ?_⟩
      have hne : h ≠ i := by
        rintro rfl
        exact hdone se hse hheld
      simpa using hne
    · exact .reloader (List.mem_filter.mp hclone).1
  | drop hse hlive href => exact hok.drop hse hlive href

theorem Ledger.initial_ok : (Ledger.initial pid).Ok P where
  process := Process.initial_ok pid
  own := fun _ hmem => by cases hmem
  wired := .initial pid true
  reloading := fun _ _ hse => by cases hse
  dropped_lt := fun _ hmem => by simp [Ledger.initial] at hmem
  unreferenced := fun _ hmem => by simp [Ledger.initial] at hmem
  gauge := by simp [Ledger.initial, Process.gaugeMoves, Process.initial]

theorem Ledger.Reachable.ok (h : Ledger.Reachable P pid l) : l.Ok P := by
  induction h with
  | start => exact Ledger.initial_ok
  | step _ hs ih => exact ih.step hs

end

/-! ### The gauge -/

/-- The live sessions that are active. -/
def Ledger.liveActive (l : Ledger) : Finset Handle :=
  (Finset.range l.process.sessions.length).filter fun h => h ∉ l.dropped ∧
    (l.process.sessions[h]?.any fun se => se.status.state.phase.isActive) = true

structure Ledger.Accurate (l : Ledger) : Prop where
  exact : l.activeSessions = l.liveActive.card
  nonneg : 0 ≤ l.activeSessions
  counted : ∀ (h : Handle) (se : Session), l.process.sessions[h]? = some se → h ∉ l.dropped →
    (se.status.state.countedActive = true ↔ ∃ keys, se.status.state.phase = .active keys)

section
variable {P : Primitives} {pid : Pid} {l : Ledger}

theorem FdPhase.isActive_iff {p : FdPhase} : p.isActive = true ↔ ∃ keys, p = .active keys := by
  cases p <;> simp [FdPhase.isActive]

theorem Ledger.Ok.exact (hok : l.Ok P) : l.activeSessions = l.liveActive.card := by
  have hsub : l.dropped ⊆ Finset.range l.process.sessions.length := fun h hmem =>
    Finset.mem_range.mpr (hok.dropped_lt h hmem)
  have hmoves : ∀ h ∈ Finset.range l.process.sessions.length, l.process.moves h =
      if (l.process.sessions[h]?.any fun se => se.status.state.phase.isActive) = true then 1
      else 0 := by
    intro h hmem
    have hse := List.getElem?_eq_getElem (Finset.mem_range.mp hmem)
    have hcounted := hok.counted hse
    rw [Process.moves, hse]
    dsimp only
    rw [hcounted.moves, hcounted.counted]
    rfl
  have hlive : l.liveActive = (Finset.range l.process.sessions.length \ l.dropped).filter fun h =>
      (l.process.sessions[h]?.any fun se => se.status.state.phase.isActive) = true := by
    ext h
    simp [Ledger.liveActive, and_assoc]
  calc l.activeSessions
      = l.process.gaugeMoves - ∑ h ∈ l.dropped, l.process.moves h := hok.gauge
    _ = ∑ h ∈ Finset.range l.process.sessions.length \ l.dropped, l.process.moves h := by
        rw [Process.gaugeMoves, ← Finset.sum_sdiff hsub, add_sub_cancel_right]
    _ = ∑ h ∈ Finset.range l.process.sessions.length \ l.dropped,
          if (l.process.sessions[h]?.any fun se => se.status.state.phase.isActive) = true then 1
          else 0 := Finset.sum_congr rfl fun h hmem => hmoves h (Finset.sdiff_subset hmem)
    _ = l.liveActive.card := by
        rw [hlive, Finset.natCast_card_filter]

/-- The gauge of every reachable ledger. -/
theorem activeSessions_accurate (h : Ledger.Reachable P pid l) : l.Accurate where
  exact := h.ok.exact
  nonneg := by
    rw [h.ok.exact]
    exact Int.natCast_nonneg _
  counted := fun i se hse _ => by
    rw [(h.ok.counted hse).counted]
    exact FdPhase.isActive_iff

end

/-! ### A client -/

/-- No session is locked by the thread that reloads the configuration. -/
def Process.Unreloaded (p : Process) : Prop := ∀ se ∈ p.sessions, se.holder ≠ some .reloader

section
variable {P : Primitives} {p p' : Process} {k k' : Kernel} {tid : Tid} {pid : Pid}

theorem Process.Unreloaded.setSession (h : p.Unreloaded) {i : Handle} {se : Session}
    (hse : se.holder ≠ some .reloader) : (p.setSession i se).Unreloaded := by
  intro se' hmem
  rcases List.mem_or_eq_of_mem_set hmem with hmem | rfl
  · exact h se' hmem
  · exact hse

theorem Process.Unreloaded.tickSession (h : p.Unreloaded) {th : Thread} {o : HookOp}
    {kont : HookResp o → Prog HookResp Unit HookRet} {i : Handle} {c : FdCall}
    (ht : Process.tickSession P tid p k th o kont i c = some (p', k')) : p'.Unreloaded := by
  unfold Process.tickSession at ht
  cases hse : p.sessions[i]? with
  | none => simp [hse] at ht
  | some se =>
    have hold := h se (List.mem_of_getElem? hse)
    simp only [hse] at ht
    split at ht
    · split at ht
      · cases ht
        exact h.setSession (by simp)
      · cases ht
    · split at ht
      · cases ht
        exact h.setSession hold
      · cases ht
    · split at ht
      · obtain ⟨r, -, heq⟩ := Option.map_eq_some_iff.mp ht
        cases heq
        exact h.setSession (by simp)
      · cases ht
    · cases ht

theorem Process.Unreloaded.tick (h : p.Unreloaded) (ht : p.tick P tid k = some (p', k')) :
    p'.Unreloaded := by
  unfold Process.tick at ht
  cases htid : p.threads tid with
  | none => simp [htid] at ht
  | some th =>
    simp only [htid] at ht
    split at ht
    · cases ht
      exact h
    · cases ht
    · split at ht
      · exact h.tickSession ht
      · obtain ⟨⟨r, p₁, k₁⟩, hserve, heq⟩ := Option.map_eq_some_iff.mp ht
        cases heq
        intro se hmem
        cases Process.serve_effect hserve with
        | insert | orInsertVacant =>
          rcases List.mem_append.mp hmem with hmem | hmem
          · exact h se hmem
          · rw [List.mem_singleton.mp hmem]
            simp [Session.new]
        | _ => exact h se hmem

theorem Ledger.Reachable.play (tid : Tid) (n : ℕ) {s : Process × Kernel}
    (h : ∃ l, Ledger.Reachable P pid l ∧ l.process = s.1 ∧ l.dropped = ∅) (hno : s.1.Unreloaded) :
    (∃ l, Ledger.Reachable P pid l ∧ l.process = (Process.play P tid n s).1 ∧ l.dropped = ∅) ∧
      (Process.play P tid n s).1.Unreloaded := by
  induction n generalizing s with
  | zero => exact ⟨h, hno⟩
  | succ n ih =>
    unfold Process.play
    cases hs : s.1.tick P tid s.2 with
    | none => exact ⟨h, hno⟩
    | some s' =>
      obtain ⟨l, hl, heq, hnone⟩ := h
      have hno' : s'.1.Unreloaded := hno.tick hs
      have hstep : Process.Step P l.process s'.1 := heq ▸ Process.tick_step hs
      refine ih ⟨_, hl.step (.runs hstep fun i se hse hheld => ?_), rfl, hnone⟩ hno'
      exact absurd hheld (hno' se (List.mem_of_getElem? hse))

theorem Ledger.Reachable.invoke (tid : Tid) (c : HookCall) (fuel n : ℕ) {s : Process × Kernel}
    (h : ∃ l, Ledger.Reachable P pid l ∧ l.process = s.1 ∧ l.dropped = ∅) (hno : s.1.Unreloaded) :
    (∃ l, Ledger.Reachable P pid l ∧ l.process = (Process.invoke P tid c fuel n s).1 ∧
      l.dropped = ∅) ∧ (Process.invoke P tid c fuel n s).1.Unreloaded := by
  unfold Process.invoke
  cases htid : s.1.threads tid with
  | some th => exact ⟨h, hno⟩
  | none =>
    obtain ⟨l, hl, heq, hnone⟩ := h
    have hstep : Process.Step P l.process (s.1.setThread tid
        (some ⟨c, fuel, [], c.run P fuel s.1.interpositionEnabled ()⟩)) := by
      rw [heq]
      exact .call htid c fuel
    refine Ledger.Reachable.play tid n
      ⟨_, hl.step (.runs hstep fun i se hse hheld => ?_), rfl, hnone⟩ hno
    exact absurd hheld (hno se (List.mem_of_getElem? hse))

end

theorem Ledger.liveActive_of_none_dropped {l : Ledger} {p : Process} (hp : l.process = p)
    (hd : l.dropped = ∅) : l.liveActive = Ledger.liveActive ⟨p, [], ∅, 0⟩ := by
  rw [Ledger.liveActive, Ledger.liveActive, hp, hd]

/-- The client of `fallbackClient` is counted once its session is active. -/
theorem activeSessions_accurate_client : ∃ l, Ledger.Reachable specimen 7 l ∧
    l.process = (fallbackClient [100, 100]).1 ∧ l.activeSessions = 1 ∧ l.Accurate := by
  have hstart : ∃ l, Ledger.Reachable specimen 7 l ∧ l.process = Process.initial 7 true ∧
    l.dropped = ∅ := ⟨_, .start, rfl, rfl⟩
  have hempty : (Process.initial 7 true).Unreloaded := fun se hmem => by cases hmem
  obtain ⟨hconnected, hno⟩ := Ledger.Reachable.invoke 0 (.connect 3) 8 50
    (s := (Process.initial 7 true, fallbackKernel [100, 100])) hstart hempty
  obtain ⟨⟨l, hl, heq, hnone⟩, -⟩ := Ledger.Reachable.invoke 0
    (.send 3 (.bytes (ascii "hi")) 0) 8 200 hconnected hno
  have hone : (Ledger.liveActive ⟨(fallbackClient [100, 100]).1, [], ∅, 0⟩).card = 1 := by
    decide +kernel
  have hcard : l.liveActive.card = 1 := by
    rw [Ledger.liveActive_of_none_dropped heq hnone]
    exact hone
  have haccurate := activeSessions_accurate hl
  exact ⟨l, hl, heq, by rw [haccurate.exact, hcard, Nat.cast_one], haccurate⟩

end SyntriassOverlay

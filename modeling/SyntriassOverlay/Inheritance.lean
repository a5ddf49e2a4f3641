import SyntriassOverlay.Fork

/-!
# Sessions that a child inherits (interceptor.rs:835-841)

Parent and child share the socket of a session that is copied by a fork, so a single byte that
the child sends or takes would break the stream of the parent. The child does neither. Its
first call on the copy closes it, and every such call is refused.
-/

namespace SyntriassOverlay
open Crypto Resumption

/-- What a process does when it finds that a session is not its own. -/
def Op.closing : Op → Bool
  | .getpid | .note .activeSessionsDec | .note (.failClosed _) => true
  | _ => false

/-- How a call on a session of another process returns. -/
def BrokenPipe : FdCall × FdRet → Prop
  | (.send _ _ _, r) => r = .sent (.error EPIPE)
  | (.recv _ _ _ _, r) => r = .received (.error EPIPE)
  | _ => True

/-- A session of another process after the calls `log`. -/
structure Disowned (owner : Pid) (log : List (FdCall × FdRet)) (t : Tr) (s : FdState) : Prop where
  owner : s.ownerPid = owner
  closing : ∀ e ∈ t, e.op.closing = true
  refused : ∀ e ∈ log, BrokenPipe e
  /-- The keys and the buffers are gone with the first call of the application. -/
  closed : (∃ e ∈ log, ∀ epoch, e.1 ≠ .retire epoch) → s.phase = .failed ∧ s.txBacklog = [] ∧
    s.rxWire = [] ∧ s.rxPlain = []

/-- Nothing is asked of runs in which `getpid` was not answered with `pid`. -/
def childInv (pid : Pid) : Obligation Resp FdState where
  call t _ o := OwnPid pid t → o.closing = true
  cut t _ := ¬ OwnPid pid t

/-- Only the calls of closing were made, and `K` is the case, unless `getpid` was not answered
with `pid`. -/
def Closes (pid : Pid) (K : Prop) (t : Tr) : Prop :=
  OwnPid pid t → K ∧ ∀ e ∈ t, e.op.closing = true

section
variable {pid owner : Pid} {K : Prop} {log : List (FdCall × FdRet)} {t : Tr} {s : FdState}
  {α : Type}

theorem Closes.concat (h : Closes pid K t) {o : Op} (ho : o.closing = true) (r : Resp o) :
    Closes pid K (t ++ [⟨o, r⟩]) := by
  intro hpid
  obtain ⟨hK, hclosing⟩ := h hpid.left
  refine ⟨hK, fun e he => ?_⟩
  rcases List.mem_append.mp he with he | he
  · exact hclosing e he
  · rw [List.mem_singleton.mp he]
    exact ho

theorem failClosed_childInv (site : FailSite) (h : Closes pid K t)
    {Q : Tr → FdState → Unit → Prop} (hQ : ∀ t, Closes pid K t → Q t s.closed ()) :
    Safe (childInv pid) Q (failClosed site s) t := by
  have hnote : ∀ {t : Tr}, Closes pid K t → Q (t ++ [noted (.failClosed site)]) s.closed () := by
    intro t ht
    exact hQ _ (ht.concat (o := .note (.failClosed site)) rfl ())
  rw [failClosed]
  by_cases hc : s.countedActive
  · simp only [hc, if_true, note, bind_apply, get_apply, bind_done, perform_apply, bind_call,
      set_apply, safe_call, safe_done]
    have hdec := h.concat (o := .note .activeSessionsDec) rfl ()
    exact ⟨fun _ => rfl, fun _ => ⟨fun _ => rfl, fun _ => hnote hdec⟩⟩
  · simp only [hc, note, bind_apply, get_apply, bind_done, perform_apply, set_apply, safe_call,
      safe_done, if_false, Bool.false_eq_true]
    exact ⟨fun _ => rfl, fun _ => hnote h⟩

/-- The guard at the head of `overlay_send` and `overlay_recv`, in a process that is not the
owner: the session is closed and the guard says so. -/
theorem inheritedAfterFork_childInv (hne : owner ≠ pid) (h : Closes pid K t)
    (howner : K → s.ownerPid = owner) {f : Bool → FdAct α} {Q : Tr → FdState → α → Prop}
    (hforeign : ∀ t s a, ¬ OwnPid pid t → Q t s a)
    (hf : ∀ t, Closes pid K t → Safe (childInv pid) Q (f true s.closed) t) :
    Safe (childInv pid) Q ((inheritedAfterFork >>= f) s) t := by
  simp only [inheritedAfterFork, bind_apply, get_apply, bind_done, perform_apply, bind_call,
    safe_call]
  refine ⟨fun _ => rfl, fun r => ?_⟩
  by_cases hr : s.ownerPid = r
  · -- the answer is not `pid`
    have hno : ∀ u : Tr, ¬ OwnPid pid (t ++ [⟨.getpid, r⟩] ++ u) := by
      intro u hpid
      have heq := howner (h hpid.left.left).1
      exact hne (heq.symm.trans (hr.trans (hpid r (by simp))))
    apply safe_of_extends
    · exact fun u _ _ hpid => absurd hpid (hno u)
    · exact fun u _ => hno u
    · exact fun u s a => hforeign _ s a (hno u)
  · simp only [hr, if_false, bind_apply]
    exact safe_bind (safe_bind (failClosed_childInv _ (h.concat rfl r) hf))

theorem refused_concat (h : ∀ e ∈ log, BrokenPipe e) {c : FdCall} {r : FdRet}
    (hr : BrokenPipe (c, r)) : ∀ e ∈ log ++ [(c, r)], BrokenPipe e := by
  intro e he
  rcases List.mem_append.mp he with he | he
  · exact h e he
  · rw [List.mem_singleton.mp he]
    exact hr

theorem FdCall.run_childInv {P : Primitives} {c : FdCall} (hc : c.hooked = true) (hne : owner ≠ pid)
    (h : OwnPid pid t → Disowned owner log t s) :
    Safe (childInv pid) (fun t s a => OwnPid pid t → Disowned owner (log ++ [(c, a)]) t s)
      (c.run P s) t := by
  have hcloses : Closes pid (s.ownerPid = owner ∧ ∀ e ∈ log, BrokenPipe e) t :=
    fun hpid => ⟨⟨(h hpid).owner, (h hpid).refused⟩, (h hpid).closing⟩
  have hended : ∀ {u : Tr} {s' : FdState} {r : FdRet},
      Closes pid (s.ownerPid = owner ∧ ∀ e ∈ log, BrokenPipe e) u → s'.closed = s' →
      s'.ownerPid = s.ownerPid → BrokenPipe (c, r) → OwnPid pid u →
      Disowned owner (log ++ [(c, r)]) u s' := by
    intro u s' r hu hclosed howner hr hpid
    obtain ⟨⟨hown, hrefused⟩, hclosing⟩ := hu hpid
    refine ⟨howner.trans hown, hclosing, refused_concat hrefused hr, fun _ => ?_⟩
    rw [← hclosed]
    exact ⟨rfl, rfl, rfl, rfl⟩
  cases c with
  | send plaintext flags fuel =>
    rw [FdCall.run, bind_apply]
    apply safe_bind
    apply inheritedAfterFork_childInv hne hcloses And.left
    · exact fun u s a hno hpid => absurd hpid hno
    · exact fun u hu => hended hu rfl rfl rfl
  | recv len hlen flags fuel =>
    rw [FdCall.run, bind_apply]
    apply safe_bind
    apply inheritedAfterFork_childInv hne hcloses And.left
    · exact fun u s a hno hpid => absurd hpid hno
    · exact fun u hu => hended hu rfl rfl rfl
  | retire epoch =>
    rw [FdCall.run, bind_apply]
    apply safe_bind
    simp only [retireIdleSession, bind_apply, get_apply, bind_done]
    split
    · apply safe_bind
      apply failClosed_childInv _ hcloses
      exact fun u hu => hended hu rfl rfl trivial
    · intro hpid
      obtain ⟨hown, hclosing, hrefused, hclosed⟩ := h hpid
      refine ⟨hown, hclosing, refused_concat hrefused trivial, ?_⟩
      intro hex
      obtain ⟨e, he, hio⟩ := hex
      apply hclosed
      rcases List.mem_append.mp he with he | he
      · exact ⟨e, he, hio⟩
      · rw [List.mem_singleton.mp he] at hio
        exact absurd rfl (hio epoch)
  | _ => cases hc

theorem disowned_start (s₀ : FdState) :
    OwnPid pid [] → Disowned s₀.ownerPid [] [] s₀ := by
  intro _
  refine ⟨rfl, fun e he => (by cases he), fun e he => (by cases he), ?_⟩
  intro hex
  obtain ⟨e, he, -⟩ := hex
  cases he

theorem reach_disowned {P : Primitives} {s₀ : FdState} {st : Status Resp FdCall FdState FdRet}
    (h : Reach (FdCall.run P) s₀ log t st) (hlog : ∀ e ∈ log, e.1.hooked = true)
    (hbusy : ∀ c p, st = .busy c p → c.hooked = true) (howner : s₀.ownerPid ≠ pid) :
    Held (childInv pid) (fun log t s => OwnPid pid t → Disowned s₀.ownerPid log t s) log t st := by
  apply reach_held_of (C := fun c => FdCall.hooked c = true) (disowned_start _) _ h hlog hbusy
  intro c log t s hc hJ
  exact FdCall.run_childInv hc howner hJ

theorem reach_closing {P : Primitives} {s₀ : FdState} {st : Status Resp FdCall FdState FdRet}
    (h : Reach (FdCall.run P) s₀ log t st) (hlog : ∀ e ∈ log, e.1.hooked = true)
    (hbusy : ∀ c p, st = .busy c p → c.hooked = true) (howner : s₀.ownerPid ≠ pid)
    (hpid : OwnPid pid t) : ∀ e ∈ t, e.op.closing = true := by
  intro e he
  obtain ⟨t', s, hpre, hcall⟩ := reach_mem_of
    (J := fun log t s => OwnPid pid t → Disowned s₀.ownerPid log t s)
    (C := fun c => FdCall.hooked c = true) (disowned_start _)
    (fun c log t s hc hJ => FdCall.run_childInv hc howner hJ) h hlog hbusy he
  obtain ⟨u, rfl⟩ := hpre
  exact hcall hpid.left

end

/-- A copy whose lock is held by a thread of the parent is never used. -/
theorem Tree.Reachable.gone_unused {P : Primitives} {pid : Pid} {ps : Tree}
    (h : Tree.Reachable P [Process.initial pid true] ps) :
    ∀ p ∈ ps, ∀ se ∈ p.sessions, se.holder = some .gone → se.log = [] := by
  induction h with
  | start =>
    intro p hp se hse
    rw [List.mem_singleton.mp hp] at hse
    cases hse
  | step _ hs ih =>
    cases hs with
    | @inside i p p' hp hs =>
      intro q hq se hse hgone
      rcases List.mem_or_eq_of_mem_set hq with hq | rfl
      · exact ih q hq se hse hgone
      · rcases hs.sessions hse with hold | ⟨hholder, -⟩
        · exact ih p (List.mem_of_getElem? hp) se hold hgone
        · exact absurd hgone hholder
    | @fork i p hp child hfresh =>
      intro q hq se hse hgone
      rcases List.mem_append.mp hq with hq | hq
      · exact ih q hq se hse hgone
      · rw [List.mem_singleton.mp hq] at hse
        obtain ⟨se', -, rfl⟩ := List.mem_map.mp hse
        rfl

end SyntriassOverlay

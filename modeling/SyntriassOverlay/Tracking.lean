import SyntriassOverlay.Phases
import SyntriassOverlay.Sockets
import SyntriassOverlay.Schedule

/-!
# Which descriptors are tracked, and in which role (interceptor.rs:470-505, 956-975)

`ensure_tracked` asks for the type of a socket before it adopts it; the hook of `connect`
does not ask, it goes by the outcome of the real call. What that means for the registry
depends on the descriptors that `connect` is called on and on what it returns.
-/

namespace SyntriassOverlay
open Crypto Resumption

/-! ### Only stream sockets -/

def Table.Stream (T : Table) (fd : Fd) : Prop :=
  ∃ l outcomes, T fd = some (.socket sockStream l outcomes)

theorem Table.stream_iff {T : Table} {fd : Fd} :
    T.Stream fd ↔ T.soType fd = some sockStream := by
  unfold Table.Stream Table.soType
  cases T fd with
  | none => simp
  | some d => cases d <;> simp

/-- One call after the other, and a `connect` that succeeds or is in progress is one of a
stream socket. -/
structure StreamConnects (w w' : World) : Prop extends Alone w w' where
  streams : ∀ fd stype l l' outcomes r, w.table fd = some (.socket stype l outcomes) →
    w'.table fd = some (.socket stype l' (outcomes ++ [r])) → r.Starts → stype = sockStream

theorem StreamConnects.of_table {w w' : World} (ha : Alone w w') (htable : w'.table = w.table) :
    StreamConnects w w' := by
  refine ⟨ha, fun fd stype l l' outcomes r hfd hfd' => ?_⟩
  rw [htable, hfd] at hfd'
  simp at hfd'

structure World.Streams (w : World) : Prop where
  registry : ∀ fd, w.process.registry fd ≠ none → w.table.Stream fd
  started : ∀ fd stype l outcomes r, w.table fd = some (.socket stype l outcomes) →
    r ∈ outcomes → r.Starts → stype = sockStream

section
variable {P : Primitives} {pid : Pid} {w w' : World} {p' : Process}

theorem World.Streams.same (h : w.Streams) (htable : w'.table = w.table)
    (hreg : ∀ fd, w'.process.registry fd ≠ none → w.process.registry fd ≠ none) : w'.Streams := by
  refine ⟨fun fd hfd => ?_, fun fd stype l outcomes r hfd => ?_⟩
  · rw [htable]
    exact h.registry fd (hreg fd hfd)
  · rw [htable] at hfd
    exact h.started fd stype l outcomes r hfd

theorem World.Streams.insert (h : w.Streams) {fd : Fd} {se : Session} (hfd : w.table.Stream fd) :
    World.Streams ⟨w.process.addSession fd se, w.table⟩ := by
  refine ⟨fun fd' hfd' => ?_, h.started⟩
  by_cases heq : fd' = fd
  · rw [heq]
    exact hfd
  · refine h.registry fd' ?_
    simpa [Process.addSession, Function.update_of_ne heq] using hfd'

theorem World.Streams.update (h : w.Streams) {fd : Fd} {d : Option Descriptor}
    (hreg : w.process.registry fd ≠ none → ∃ l outcomes, d = some (.socket sockStream l outcomes))
    (hstarted : ∀ stype l outcomes r, d = some (.socket stype l outcomes) → r ∈ outcomes →
      r.Starts → stype = sockStream) :
    World.Streams ⟨w.process, Function.update w.table fd d⟩ := by
  refine ⟨fun fd' hfd' => ?_, fun fd' stype l outcomes r hfd' => ?_⟩
  · by_cases heq : fd' = fd
    · subst heq
      obtain ⟨l, outcomes, rfl⟩ := hreg hfd'
      exact ⟨l, outcomes, by simp⟩
    · obtain ⟨l, outcomes, hold⟩ := h.registry fd' hfd'
      exact ⟨l, outcomes, by simpa [Function.update_of_ne heq] using hold⟩
  · by_cases heq : fd' = fd
    · subst heq
      exact hstarted stype l outcomes r (by simpa using hfd')
    · exact h.started fd' stype l outcomes r (by simpa [Function.update_of_ne heq] using hfd')

theorem World.Streams.step (h : w.Streams) (hok : w.Ok P) (ha : StreamConnects w w')
    (hs : World.Step P w w') : w'.Streams := by
  cases hs with
  | @hook tid th o k r p₁ T' htid hprog he hk =>
    have hshape := (hok.process.threads tid th htid).shape hprog
    have hseen := hok.seen tid th htid
    suffices hnext : World.Streams ⟨p₁, T'⟩ from hnext.same rfl fun _ => id
    cases he with
    | containsKey | lookup | query | blockedBypassAttempt | orInsertOccupied =>
      cases hk
      exact h.same rfl fun _ => id
    | soType fd r => cases hk <;> exact h.same rfl fun _ => id
    | insert fd st =>
      cases hk
      obtain ⟨-, r, q, hr, ht⟩ := hshape
      have hconn : w.Confirms ⟨.real (.connect fd), r⟩ := hseen _ (by simp [ht])
      obtain ⟨stype, l, outcomes, hfd, hmem⟩ := hconn hr
      cases h.started fd stype l outcomes r hfd hmem hr
      exact h.insert ⟨l, outcomes, hfd⟩
    | orInsertVacant fd st hvacant =>
      cases hk
      obtain ⟨-, -, q, q', ht⟩ := hshape
      have htype : w.Confirms ⟨.soType fd, some sockStream⟩ := hseen _ (by simp [ht, adopting])
      exact h.insert (Table.stream_iff.mpr (Eq.symm htype))
    | remove fd =>
      cases hk
      refine h.same rfl fun fd' hfd' hnone => hfd' ?_
      by_cases heq : fd' = fd
      · simp [heq]
      · simpa [Function.update_of_ne heq] using hnone
    | real c r =>
      cases hk with
      | @connect fd stype l l' outcomes _ hfd hconn =>
        refine h.update (fun hreg => ?_) fun stype' l₁ outcomes' r' heq hmem hr' => ?_
        · obtain ⟨l₀, outcomes₀, hold⟩ := h.registry fd hreg
          cases hold.symm.trans hfd
          exact ⟨l', _, rfl⟩
        · cases heq
          rcases List.mem_append.mp hmem with hmem | hmem
          · exact h.started fd stype l outcomes r' hfd hmem hr'
          · rw [List.mem_singleton.mp hmem] at hr'
            exact ha.streams fd stype l l' outcomes r hfd (by simp) hr'
      | notSocket => exact h.same rfl fun _ => id
      | close fd =>
        obtain ⟨hc, hf⟩ := hshape
        have ht := hf.close fd (HookCall.passThrough_close hc)
        have hremoved : w.Confirms ⟨.remove fd, ()⟩ := hseen _ (by simp [ht])
        exact h.update (fun hreg => absurd hremoved hreg) fun _ _ _ _ heq => by cases heq
      | aloof => exact h.same rfl fun _ => id
  | inside hs hin =>
    refine h.same rfl fun fd hfd => ?_
    rwa [← (hin.quiet hs).registry]
  | @opens fd d hfree hd =>
    refine h.update (fun hreg => ?_) fun stype l outcomes r heq hmem => ?_
    · obtain ⟨l, outcomes, hold⟩ := h.registry fd hreg
      cases hold.symm.trans hfree
    · cases heq
      cases hd <;> cases hmem
  | @settles fd stype outcomes l hfd hl =>
    refine h.update (fun hreg => ?_) fun stype' l' outcomes' r heq hmem hr => ?_
    · obtain ⟨l₀, outcomes₀, hold⟩ := h.registry fd hreg
      cases hold.symm.trans hfd
      exact ⟨l, outcomes, rfl⟩
    · cases heq
      exact h.started fd stype .connecting outcomes r hfd hmem hr

theorem World.Reachable.streams (h : World.Reachable P StreamConnects pid w) : w.Streams := by
  induction h with
  | start => exact ⟨fun fd hfd => absurd rfl hfd, fun fd stype l outcomes r hfd => by cases hfd⟩
  | step h ha hs ih => exact ih.step (h.ok fun _ _ => StreamConnects.toAlone) ha hs

end

/-! ### Passing through -/

/-- The arguments that a hook does not reject by itself. -/
def HookCall.wellFormed : HookCall → Bool
  | .writev _ _ iovcnt | .readv _ _ iovcnt => 0 ≤ iovcnt
  | .sendmsg _ msg _ | .recvmsg _ msg _ => msg.isSome
  | _ => true

/-- The calls of a hook that passes through. -/
def HookCall.Passing (c : HookCall) (o : HookOp) : Prop :=
  o = .containsKey c.fd ∨ o = .soType c.fd ∨ o = .real c.passThrough

/-- All the thread does is to look its descriptor up, to ask for its type, and to make the
real call with the arguments it was given. -/
structure Thread.PassesThrough (th : Thread) : Prop where
  made : ∀ e ∈ th.trace, th.call.Passing e.op
  makes : ∀ o k, th.prog = .call () o k → th.call.Passing o
  returns : ∀ a, th.prog = .done () a →
    ∃ r, (⟨.real th.call.passThrough, r⟩ : Ev HookResp) ∈ th.trace ∧ a = .real r
  ends : th.prog ≠ .cut ()

/-- The hook was not told that its descriptor is tracked or a stream socket. -/
structure Unknown (c : HookCall) (t : Trace HookResp) : Prop where
  key : (⟨.containsKey c.fd, true⟩ : Ev HookResp) ∉ t
  soType : (⟨.soType c.fd, some sockStream⟩ : Ev HookResp) ∉ t

def passInv (c : HookCall) : Obligation HookResp Unit where
  call t _ o := Unknown c t → c.Passing o
  cut t _ := ¬ Unknown c t

section
variable {P : Primitives} {pid : Pid} {c : HookCall} {t : Trace HookResp} {α : Type}

theorem Unknown.left {u : Trace HookResp} (h : Unknown c (t ++ u)) : Unknown c t :=
  ⟨fun hmem => h.key (List.mem_append_left _ hmem),
    fun hmem => h.soType (List.mem_append_left _ hmem)⟩

theorem passes_of_known (h : ¬ Unknown c t) {Q : Trace HookResp → Unit → α → Prop}
    (p : Prog HookResp Unit α) : Safe (passInv c) (fun t s a => Unknown c t → Q t s a) p t :=
  safe_of_extends (fun _ _ _ hu => absurd hu.left h) (fun _ _ hu => h hu.left)
    (fun _ _ _ hu => absurd hu.left h) p

theorem tracked_passes (m : HookAct HookRet) :
    Safe (passInv c) (fun t _ a => Unknown c t →
      ∃ r, (⟨.real c.passThrough, r⟩ : Ev HookResp) ∈ t ∧ a = .real r)
      (tracked c.fd c m ()) [] := by
  refine ⟨fun _ => .inl rfl, fun known => ?_⟩
  cases known with
  | true => exact passes_of_known (fun hu => hu.key (by simp)) _
  | false =>
    refine ⟨fun _ => .inr (.inl rfl), fun r => ?_⟩
    by_cases hr : r = some sockStream
    · exact passes_of_known (fun hu => hu.soType (by simp [hr])) _
    · have hforward : Safe (passInv c) (fun t _ a => Unknown c t →
          ∃ r, (⟨.real c.passThrough, r⟩ : Ev HookResp) ∈ t ∧ a = .real r) (forward c ())
          ([] ++ [⟨.containsKey c.fd, false⟩] ++ [⟨.soType c.fd, r⟩]) :=
        ⟨fun _ => .inr (.inr rfl), fun r' _ => ⟨r', by simp, rfl⟩⟩
      cases r with
      | none => exact hforward
      | some stype =>
        have hne : (stype == sockStream) = false := beq_false_of_ne (by simpa using hr)
        simpa [hne] using hforward

theorem HookCall.body_tracked (fuel : ℕ) (htr : c.tracks = true) (hwf : c.wellFormed = true) :
    ∃ m, c.body P fuel = tracked c.fd c m := by
  cases c with
  | connect | sendto | sendmmsg | sendfile | sendfile64 | splice | close => cases htr
  | send | recv | write | read => exact ⟨_, rfl⟩
  | writev fd iov iovcnt | readv fd iov iovcnt =>
    have hle : ¬ iovcnt < 0 := not_lt.mpr (of_decide_eq_true hwf)
    exact ⟨_, by simp only [HookCall.body, if_neg hle]; rfl⟩
  | sendmsg fd msg flags | recvmsg fd msg flags =>
    obtain ⟨⟨iov, iovlen⟩, rfl⟩ := Option.isSome_iff_exists.mp hwf
    exact ⟨_, rfl⟩

theorem Thread.Ok.passesThrough {th : Thread} (h : th.Ok P pid) (htr : th.call.tracks = true)
    (hwf : th.call.wellFormed = true) (hu : Unknown th.call th.trace) : th.PassesThrough := by
  have hruns := h.runs
  obtain ⟨m, hbody⟩ := HookCall.body_tracked (P := P) th.fuel htr hwf
  have hrun : th.call.run P th.fuel true () = tracked th.call.fd th.call m () :=
    congrFun hbody ()
  rw [hrun] at hruns
  have hsafe := tracked_passes (c := th.call) m
  have hhere := safe_at hsafe hruns
  rw [List.nil_append] at hhere
  refine ⟨fun e hmem => ?_, fun o k hprog => ?_, fun a hprog => ?_, fun hprog => ?_⟩
  · obtain ⟨u, s, ⟨v, hv⟩, hcall⟩ := safe_mem hsafe hruns hmem
    rw [← hv] at hu
    exact hcall hu.left
  · rw [hprog] at hhere
    exact hhere.1 hu
  · rw [hprog] at hhere
    exact hhere hu
  · rw [hprog] at hhere
    exact hhere hu

end

/-! ### The role of a connected descriptor -/

/-- Some `connect` has succeeded or is in progress. -/
def Started (outcomes : List RealRet) : Prop := ∃ r ∈ outcomes, r.Starts

def World.Tracked (w : World) (fd : Fd) (role : Role) : Prop :=
  ∃ h se, w.process.registry fd = some h ∧ w.process.sessions[h]? = some se ∧ se.role = role

/-- A hook has changed the connection and not yet the registry, or the other way round. -/
inductive Unfinished (fd : Fd) (c : HookCall) (t : Trace HookResp) : Prop
  | connect {r : RealRet} (hc : c = .connect fd) (hr : r.Starts)
      (hmem : (⟨.real (.connect fd), r⟩ : Ev HookResp) ∈ t)
      (hno : ∀ st, (⟨.insert fd st, ()⟩ : Ev HookResp) ∉ t)
  | close (hc : c = .close fd) (hmem : (⟨.remove fd, ()⟩ : Ev HookResp) ∈ t)
      (hno : ∀ r, (⟨.real (.close fd), r⟩ : Ev HookResp) ∉ t)

/-- A socket on which a `connect` has started is tracked as an initiator, another one as a
responder if at all. -/
structure World.Roles (w : World) : Prop where
  socket : ∀ fd, w.process.registry fd ≠ none → w.table.soType fd ≠ none
  initiator : ∀ fd stype l outcomes, w.table fd = some (.socket stype l outcomes) →
    Started outcomes → w.Tracked fd .initiator ∨
      ∃ tid th, w.process.threads tid = some th ∧ Unfinished fd th.call th.trace
  responder : ∀ fd stype l outcomes, w.table fd = some (.socket stype l outcomes) →
    ¬ Started outcomes → w.process.registry fd ≠ none → w.Tracked fd .responder

section
variable {P : Primitives} {pid : Pid} {w w' : World} {p' : Process} {fd fd' : Fd} {c : HookCall}
  {t t' : Trace HookResp} {role : Role}

theorem Unfinished.extend (h : Unfinished fd c t) (hsub : ∀ e ∈ t, e ∈ t')
    (hnew : ∀ e ∈ t', e ∈ t ∨ e.op.calm = true) : Unfinished fd c t' := by
  cases h with
  | connect hc hr hmem hno =>
    refine .connect hc hr (hsub _ hmem) fun st hst => ?_
    exact hno st ((hnew _ hst).resolve_right fun hcalm => by cases hcalm)
  | close hc hmem hno =>
    refine .close hc (hsub _ hmem) fun r hr => ?_
    exact hno r ((hnew _ hr).resolve_right fun hcalm => by cases hcalm)

theorem Unfinished.call (h : Unfinished fd c t) : c = .connect fd ∨ c = .close fd := by
  cases h with
  | connect hc => exact .inl hc
  | close hc => exact .inr hc

theorem Unfinished.not_nil (h : Unfinished fd c []) : False := by
  cases h with
  | connect _ _ hmem => cases hmem
  | close _ hmem => cases hmem

theorem Unfinished.not_tracks (htr : c.tracks = true) : ¬ Unfinished fd c t := by
  intro hu
  rcases hu.call with rfl | rfl <;> cases htr

theorem HookOp.calm_of_remote {o : HookOp} (h : o.remote = true) : o.calm = true := by
  cases o <;> first | rfl | cases h

theorem World.Tracked.quiet (h : w.Tracked fd role) (hq : Quiet w.process p') {T : Table} :
    World.Tracked ⟨p', T⟩ fd role := by
  obtain ⟨hd, se, hreg, hse, hrole⟩ := h
  obtain ⟨se', hse', hrole'⟩ := hq.roles hd se hse
  exact ⟨hd, se', (congrFun hq.registry fd).trans hreg, hse', hrole'.trans hrole⟩

theorem World.Tracked.add (h : w.Tracked fd role) {se : Session} (hne : fd ≠ fd') {T : Table} :
    World.Tracked ⟨w.process.addSession fd' se, T⟩ fd role := by
  obtain ⟨hd, se₀, hreg, hse, hrole⟩ := h
  refine ⟨hd, se₀, by simpa [Process.addSession, Function.update_of_ne hne] using hreg, ?_, hrole⟩
  exact (List.getElem?_append_left (List.getElem?_eq_some_iff.mp hse).1).trans hse

theorem World.tracked_add {p : Process} {se : Session} {T : Table} :
    World.Tracked ⟨p.addSession fd se, T⟩ fd se.role :=
  ⟨p.sessions.length, se, by simp [Process.addSession], by simp [Process.addSession], rfl⟩

/-- The roles as the thread that has just made a call leaves them. -/
structure RolesAfter (p : Process) (T : Table) (c : HookCall) (t : Trace HookResp) : Prop where
  socket : ∀ fd, p.registry fd ≠ none → T.soType fd ≠ none
  initiator : ∀ fd stype l outcomes, T fd = some (.socket stype l outcomes) → Started outcomes →
    World.Tracked ⟨p, T⟩ fd .initiator ∨ Unfinished fd c t
  responder : ∀ fd stype l outcomes, T fd = some (.socket stype l outcomes) → ¬ Started outcomes →
    p.registry fd ≠ none → World.Tracked ⟨p, T⟩ fd .responder

theorem RolesAfter.snoc {p : Process} {T : Table} {e : Ev HookResp} (h : RolesAfter p T c t)
    (he : ∀ fd, Unfinished fd c t → Unfinished fd c (t ++ [e])) : RolesAfter p T c (t ++ [e]) :=
  ⟨h.socket, fun fd stype l outcomes hfd hst =>
    (h.initiator fd stype l outcomes hfd hst).imp_right (he fd), h.responder⟩

theorem RolesAfter.calm {p : Process} {T : Table} {e : Ev HookResp} (h : RolesAfter p T c t)
    (he : e.op.calm = true) : RolesAfter p T c (t ++ [e]) := by
  refine h.snoc fun fd hu => ?_
  refine hu.extend (fun e' hmem => List.mem_append_left _ hmem) fun e' hmem => ?_
  rcases List.mem_append.mp hmem with hmem | hmem
  · exact .inl hmem
  · rw [List.mem_singleton.mp hmem]
    exact .inr he

/-- The hook changes what there is about its own descriptor only. -/
theorem RolesAfter.change {p p₁ : Process} {T T₁ : Table} (h : RolesAfter p T c t) (fd₀ : Fd)
    (hreg : ∀ fd, fd ≠ fd₀ → p₁.registry fd = p.registry fd)
    (hsessions : ∀ (i : Handle) (se : Session), p.sessions[i]? = some se →
      p₁.sessions[i]? = some se)
    (htable : ∀ fd, fd ≠ fd₀ → T₁ fd = T fd) (hun : ∀ fd, Unfinished fd c t → fd = fd₀)
    (hsocket : p₁.registry fd₀ ≠ none → T₁.soType fd₀ ≠ none)
    (hinitiator : ∀ stype l outcomes, T₁ fd₀ = some (.socket stype l outcomes) →
      Started outcomes → World.Tracked ⟨p₁, T₁⟩ fd₀ .initiator ∨ Unfinished fd₀ c t')
    (hresponder : ∀ stype l outcomes, T₁ fd₀ = some (.socket stype l outcomes) →
      ¬ Started outcomes → p₁.registry fd₀ ≠ none → World.Tracked ⟨p₁, T₁⟩ fd₀ .responder) :
    RolesAfter p₁ T₁ c t' := by
  have htracked : ∀ fd role, fd ≠ fd₀ → World.Tracked ⟨p, T⟩ fd role →
      World.Tracked ⟨p₁, T₁⟩ fd role := by
    rintro fd role hne ⟨i, se, hfd, hse, hrole⟩
    exact ⟨i, se, (hreg fd hne).trans hfd, hsessions i se hse, hrole⟩
  refine ⟨fun fd hfd => ?_, fun fd stype l outcomes hfd hst => ?_,
    fun fd stype l outcomes hfd hst hreg' => ?_⟩
  · by_cases heq : fd = fd₀
    · subst heq
      exact hsocket hfd
    · rw [hreg fd heq] at hfd
      rw [Table.soType, htable fd heq]
      exact h.socket fd hfd
  · by_cases heq : fd = fd₀
    · subst heq
      exact hinitiator stype l outcomes hfd hst
    · rw [htable fd heq] at hfd
      refine .inl (htracked fd _ heq ?_)
      exact (h.initiator fd stype l outcomes hfd hst).resolve_right fun hu => heq (hun fd hu)
  · by_cases heq : fd = fd₀
    · subst heq
      exact hresponder stype l outcomes hfd hst hreg'
    · rw [hreg fd heq] at hreg'
      rw [htable fd heq] at hfd
      exact htracked fd _ heq (h.responder fd stype l outcomes hfd hst hreg')

theorem RolesAfter.add {p : Process} {T : Table} {fd₀ : Fd} {se : Session} {e : Ev HookResp}
    (h : RolesAfter p T c t) (hu : ∀ fd, Unfinished fd c t → fd = fd₀ ∧ se.role = .initiator)
    (hsocket : T.soType fd₀ ≠ none)
    (hrole : ∀ stype l outcomes, T fd₀ = some (.socket stype l outcomes) →
      (Started outcomes ↔ se.role = .initiator)) :
    RolesAfter (p.addSession fd₀ se) T c (t ++ [e]) := by
  have hadded : World.Tracked ⟨p.addSession fd₀ se, T⟩ fd₀ se.role := World.tracked_add
  refine h.change fd₀ (fun fd hne => Function.update_of_ne hne _ _) (fun i se' hse => ?_)
    (fun _ _ => rfl) (fun fd hun => (hu fd hun).1) (fun _ => hsocket)
    (fun stype l outcomes hfd hst => .inl ?_) fun stype l outcomes hfd hst _ => ?_
  · exact (List.getElem?_append_left (List.getElem?_eq_some_iff.mp hse).1).trans hse
  · rw [(hrole stype l outcomes hfd).mp hst] at hadded
    exact hadded
  · cases hr : se.role with
    | initiator => exact absurd ((hrole stype l outcomes hfd).mpr hr) hst
    | responder =>
      rw [hr] at hadded
      exact hadded

/-- `close` takes a descriptor out of the registry before the kernel closes it. -/
theorem RolesAfter.remove {p : Process} {T : Table} (h : RolesAfter p T (.close fd) []) :
    RolesAfter { p with registry := Function.update p.registry fd none } T (.close fd)
      ([] ++ [⟨.remove fd, ()⟩]) :=
  h.change fd (fun fd' hne => Function.update_of_ne hne _ _) (fun _ _ hse => hse) (fun _ _ => rfl)
    (fun fd' hu => hu.not_nil.elim) (fun hsome => absurd (Function.update_self _ _ _) hsome)
    (fun _ _ _ _ _ => .inr (.close rfl (by simp) fun r hr => by simp at hr))
    fun _ _ _ _ _ hsome => absurd (Function.update_self _ _ _) hsome

theorem RolesAfter.connect {p : Process} {T : Table} {stype : ℕ} {l l' : Link}
    {outcomes : List RealRet} {r : RealRet} (h : RolesAfter p T (.connect fd) [])
    (hfd : T fd = some (.socket stype l outcomes)) :
    RolesAfter p (Function.update T fd (some (.socket stype l' (outcomes ++ [r])))) (.connect fd)
      ([] ++ [⟨.real (.connect fd), r⟩]) := by
  refine h.change fd (fun _ _ => rfl) (fun _ _ hse => hse)
    (fun fd' hne => Function.update_of_ne hne _ _) (fun fd' hu => hu.not_nil.elim)
    (fun _ => by simp [Table.soType]) (fun stype₁ l₁ outcomes₁ hfd' hst => ?_)
    fun stype₁ l₁ outcomes₁ hfd' hst hreg => ?_
  · cases (Function.update_self _ _ _).symm.trans hfd'
    obtain ⟨r', hmem, hr'⟩ := hst
    rcases List.mem_append.mp hmem with hmem | hmem
    · refine .inl ((h.initiator fd stype l outcomes hfd ⟨r', hmem, hr'⟩).resolve_right ?_)
      exact Unfinished.not_nil
    · rw [List.mem_singleton.mp hmem] at hr'
      exact .inr (.connect rfl hr' (by simp) fun st hst => by simp at hst)
  · cases (Function.update_self _ _ _).symm.trans hfd'
    refine h.responder fd stype l outcomes hfd (fun hst' => hst ?_) hreg
    obtain ⟨r', hmem, hr'⟩ := hst'
    exact ⟨r', List.mem_append_left _ hmem, hr'⟩

theorem RolesAfter.close {p : Process} {T : Table} {e : Ev HookResp}
    (h : RolesAfter p T (.close fd) t) (hreg : p.registry fd = none) :
    RolesAfter p (Function.update T fd none) (.close fd) (t ++ [e]) := by
  refine h.change fd (fun _ _ => rfl) (fun _ _ hse => hse)
    (fun fd' hne => Function.update_of_ne hne _ _) (fun fd' hu => ?_)
    (fun hsome => absurd hreg hsome) (fun stype l outcomes hfd => ?_)
    fun _ _ _ _ _ hsome => absurd hreg hsome
  · rcases hu.call with hc | hc <;> cases hc
    rfl
  · cases (Function.update_self _ _ _).symm.trans hfd

/-- No call of a hook is of interest but its answer. -/
abbrev anyHookCall : Obligation HookResp Unit where
  call _ _ _ := True
  cut _ _ := True

theorem anyHookCall_rule (P : Primitives) (c : HookCall) : HookRule P anyHookCall c :=
  ⟨fun _ _ _ _ => trivial, fun _ _ _ _ _ _ => trivial, fun _ => trivial, fun _ _ => trivial,
    fun _ _ _ _ _ _ _ => trivial, fun _ _ _ _ _ _ => trivial, fun _ _ => trivial⟩

theorem World.Roles.hook {th : Thread} {o : HookOp} {k : HookResp o → Prog HookResp Unit HookRet}
    {r : HookResp o} {T' : Table} {tid : Tid} (h : w.Roles) (hok : w.Ok P)
    (htid : w.process.threads tid = some th) (hprog : th.prog = .call () o k)
    (he : Effect w.process th.trace o r p') (hk : Served w.table ⟨o, r⟩ T') :
    RolesAfter p' T' th.call (th.trace ++ [⟨o, r⟩]) := by
  have hshape := (hok.process.threads tid th htid).shape hprog
  have hseen := hok.seen tid th htid
  have hbefore : RolesAfter w.process w.table th.call th.trace := by
    refine ⟨h.socket, fun fd stype l outcomes hfd hst => ?_, h.responder⟩
    refine (h.initiator fd stype l outcomes hfd hst).imp_right ?_
    rintro ⟨tid', th', hth', hu⟩
    cases hok.single tid' tid th' th hth' htid
    cases hth'.symm.trans htid
    exact hu
  cases he with
  | containsKey | lookup | query | blockedBypassAttempt =>
    cases hk
    exact hbefore.calm rfl
  | soType fd r => cases hk <;> exact hbefore.calm rfl
  | insert fd st =>
    cases hk
    obtain ⟨hc, r, q, hr, ht⟩ := hshape
    have hconn : w.Confirms ⟨.real (.connect fd), r⟩ := hseen _ (by simp [ht])
    obtain ⟨stype, l, outcomes, hfd, hmem⟩ := hconn hr
    refine hbefore.add (fun fd' hu => ⟨?_, rfl⟩) ?_ fun stype' l' outcomes' hfd' => ?_
    · rcases hu.call with heq | heq <;> cases hc.symm.trans heq
      rfl
    · simp [Table.soType, hfd]
    · cases hfd.symm.trans hfd'
      exact ⟨fun _ => rfl, fun _ => ⟨r, hmem, hr⟩⟩
  | orInsertOccupied =>
    cases hk
    obtain ⟨-, htr, -⟩ := hshape
    exact hbefore.snoc fun fd hu => absurd hu (Unfinished.not_tracks htr)
  | orInsertVacant fd st hvacant =>
    cases hk
    obtain ⟨-, htr, q, q', ht⟩ := hshape
    have htype : w.Confirms ⟨.soType fd, some sockStream⟩ := hseen _ (by simp [ht, adopting])
    refine hbefore.add (fun fd' hu => absurd hu (Unfinished.not_tracks htr)) ?_
      fun stype l outcomes hfd => ?_
    · rw [← show some sockStream = w.table.soType fd from htype]
      simp
    · refine ⟨fun hst => ?_, fun hrole => by cases hrole⟩
      obtain ⟨hd, se, hreg, -⟩ := (hbefore.initiator fd stype l outcomes hfd hst).resolve_right
        (Unfinished.not_tracks htr)
      cases hvacant.symm.trans hreg
  | remove fd =>
    cases hk
    obtain ⟨hc, ht⟩ := hshape
    rw [hc, ht] at hbefore ⊢
    exact hbefore.remove
  | real c r =>
    obtain ⟨hc, hf⟩ := hshape
    cases hk with
    | @connect fd stype l l' outcomes _ hfd hconn =>
      have hcall := HookCall.passThrough_connect hc
      rw [hf.connect fd hcall, hcall] at hbefore ⊢
      exact hbefore.connect hfd
    | @notSocket fd =>
      have ht := hf.connect fd (HookCall.passThrough_connect hc)
      refine hbefore.snoc fun fd' hu => ?_
      rw [ht] at hu
      exact absurd hu Unfinished.not_nil
    | close fd =>
      have hcall := HookCall.passThrough_close hc
      have ht := hf.close fd hcall
      have hremoved : w.Confirms ⟨.remove fd, ()⟩ := hseen _ (by simp [ht])
      rw [hcall] at hbefore ⊢
      exact hbefore.close hremoved
    | aloof ha =>
      refine hbefore.snoc fun fd hu => ?_
      subst hc
      rcases hu.call with heq | heq <;> rw [heq] at ha <;> cases ha

/-- `connect` has installed the initiator by the time it returns, and `close` has closed. -/
theorem Unfinished.not_done {th : Thread} (hok : th.Ok P pid) {a : HookRet}
    (hprog : th.prog = .done () a) : ¬ Unfinished fd th.call th.trace := by
  have hruns := hok.runs
  rw [hprog, HookCall.run] at hruns
  intro hu
  cases hu with
  | @connect r hc hr hmem hno =>
    rw [hc] at hruns
    have hsafe : Safe anyHookCall (fun t _ _ => ∀ r : RealRet,
        (⟨.real (.connect fd), r⟩ : Ev HookResp) ∈ t → r.Starts →
          ∃ st, (⟨.insert fd st, ()⟩ : Ev HookResp) ∈ t) (hookConnect P fd ()) [] := by
      refine ⟨trivial, fun res => ?_⟩
      simp only [bind_done]
      split
      · refine safe_bind (safe_bind (building_safe (anyHookCall_rule P (.connect fd)) ?_))
        exact fun q st _ => ⟨trivial, fun _ _ _ _ => ⟨st, by simp⟩⟩
      case isFalse hres =>
        intro r hmem hr
        cases List.mem_singleton.mp hmem
        exact absurd hr hres
    obtain ⟨st, hst⟩ := safe_at hsafe hruns r hmem hr
    exact hno st hst
  | close hc _ hno =>
    rw [hc] at hruns
    have hsafe : Safe anyHookCall (fun t _ _ => ∃ r : RealRet,
        (⟨.real (.close fd), r⟩ : Ev HookResp) ∈ t) (hookClose fd ()) [] :=
      ⟨trivial, fun _ => ⟨trivial, fun r => ⟨r, by simp [HookCall.passThrough]⟩⟩⟩
    obtain ⟨r, hr⟩ := safe_at hsafe hruns
    exact hno r hr

theorem World.Roles.step (h : w.Roles) (hok : w.Ok P) (hs : World.Step P w w') : w'.Roles := by
  cases hs with
  | @hook tid th o k r p₁ T' htid hprog he hk =>
    have hafter := h.hook hok htid hprog he hk
    refine ⟨hafter.socket, fun fd stype l outcomes hfd hst => ?_, hafter.responder⟩
    refine (hafter.initiator fd stype l outcomes hfd hst).imp_right fun hu => ?_
    exact ⟨tid, th.next k r, by simp [Process.setThread], hu⟩
  | @inside p' hs hin =>
    have hq := hin.quiet hs
    have hreg : ∀ fd, p'.registry fd = w.process.registry fd := congrFun hq.registry
    refine ⟨fun fd hfd => ?_, fun fd stype l outcomes hfd hst => ?_,
      fun fd stype l outcomes hfd hst hfd' => ?_⟩
    · rw [hreg] at hfd
      exact h.socket fd hfd
    · rcases h.initiator fd stype l outcomes hfd hst with htr | ⟨tid, th, hth, hu⟩
      · exact .inl (htr.quiet hq)
      · cases hth' : p'.threads tid with
        | none =>
          obtain ⟨a, hdone⟩ := hq.left tid th hth hth'
          exact absurd hu (Unfinished.not_done (hok.process.threads tid th hth) hdone)
        | some th' =>
          rcases hq.threads tid th' hth' with ⟨th₀, hth₀, hcall, hpre, hnew⟩ | ⟨hnone, -⟩
          · cases hth.symm.trans hth₀
            refine .inr ⟨tid, th', hth', ?_⟩
            rw [hcall]
            refine hu.extend (fun e hmem => hpre.subset hmem) fun e hmem => ?_
            exact (hnew e hmem).imp_right HookOp.calm_of_remote
          · cases hnone.symm.trans hth
    · rw [hreg] at hfd'
      exact (h.responder fd stype l outcomes hfd hst hfd').quiet hq
  | @opens fd d hfree hd =>
    have hvacant : w.process.registry fd = none := by
      by_contra hreg
      refine h.socket fd hreg ?_
      simp [Table.soType, hfree]
    refine ⟨fun fd' hreg => ?_, fun fd' stype l outcomes hfd' hst => ?_,
      fun fd' stype l outcomes hfd' hst hreg => ?_⟩
    · have heq : fd' ≠ fd := by
        rintro rfl
        exact hreg hvacant
      simpa [Table.soType, Function.update_of_ne heq] using h.socket fd' hreg
    · by_cases heq : fd' = fd
      · subst heq
        simp only [Function.update_self, Option.some.injEq] at hfd'
        subst hfd'
        obtain ⟨r, hmem, -⟩ := hst
        cases hd <;> cases hmem
      · simp only [Function.update_of_ne heq] at hfd'
        exact h.initiator fd' stype l outcomes hfd' hst
    · have heq : fd' ≠ fd := by
        rintro rfl
        exact hreg hvacant
      simp only [Function.update_of_ne heq] at hfd'
      exact h.responder fd' stype l outcomes hfd' hst hreg
  | @settles fd stype outcomes l hfd hl =>
    -- only the link changes
    have hold : ∀ fd' stype' l' outcomes', Function.update w.table fd
        (some (.socket stype l outcomes)) fd' = some (.socket stype' l' outcomes') →
        ∃ l₀, w.table fd' = some (.socket stype' l₀ outcomes') := by
      intro fd' stype' l' outcomes' hfd'
      by_cases heq : fd' = fd
      · subst heq
        rw [Function.update_self] at hfd'
        cases hfd'
        exact ⟨_, hfd⟩
      · rw [Function.update_of_ne heq] at hfd'
        exact ⟨_, hfd'⟩
    refine ⟨fun fd' hreg => ?_, fun fd' stype' l' outcomes' hfd' hst => ?_,
      fun fd' stype' l' outcomes' hfd' hst hreg => ?_⟩
    · by_cases heq : fd' = fd
      · simp [heq, Table.soType]
      · simpa [Table.soType, Function.update_of_ne heq] using h.socket fd' hreg
    · obtain ⟨l₀, hfd₀⟩ := hold fd' stype' l' outcomes' hfd'
      exact h.initiator fd' stype' l₀ outcomes' hfd₀ hst
    · obtain ⟨l₀, hfd₀⟩ := hold fd' stype' l' outcomes' hfd'
      exact h.responder fd' stype' l₀ outcomes' hfd₀ hst hreg

theorem World.Reachable.roles (h : World.Reachable P Alone pid w) : w.Roles := by
  induction h with
  | start => exact ⟨fun fd hfd => absurd rfl hfd, fun fd stype l outcomes hfd => (by cases hfd),
      fun fd stype l outcomes hfd => (by cases hfd)⟩
  | step h _ hs ih => exact ih.step (h.ok fun _ _ => id) hs

end

/-- The descriptor is tracked by a session that waits for a `ClientHello`. -/
def World.Awaits (w : World) (fd : Fd) : Prop :=
  ∃ h se, w.process.registry fd = some h ∧ w.process.sessions[h]? = some se ∧
    se.status.state.phase = .responderAwaitingClientHello

/-- `fd` of one process and `fd'` of another are the two ends of a connection that the first
has made and the second has accepted; `outcomes` is what `connect` returned for it. No hook is
about to change that. -/
structure Established (P : Primitives) (w w' : World) (fd fd' : Fd) (outcomes : List RealRet) :
    Prop where
  reachable : ∃ pid, World.Reachable P Alone pid w
  peer : ∃ pid, World.Reachable P Alone pid w'
  connected : w.table fd = some (.socket sockStream .connected outcomes)
  accepted : w'.table fd' = some (.socket sockStream .accepted [])
  idle : ∀ tid th, w.process.threads tid = some th → th.call ≠ .connect fd ∧ th.call ≠ .close fd

section
variable {P : Primitives} {pid : Pid} {w w' : World} {fd fd' : Fd} {outcomes : List RealRet}

theorem World.Step.process (hs : World.Step P w w') :
    Process.Step P w.process w'.process ∨ w'.process = w.process := by
  cases hs with
  | hook htid hprog he => exact .inl (.hook htid hprog he)
  | inside hs => exact .inl hs
  | opens | settles => exact .inr rfl

theorem World.Reachable.process {allowed : World → World → Prop}
    (h : World.Reachable P allowed pid w) :
    Process.Reachable P (Process.initial pid true) w.process := by
  induction h with
  | start => exact .start
  | step _ _ hs ih =>
    rcases hs.process with hp | hp
    · exact ih.step hp
    · rw [hp]
      exact ih

theorem World.Tracked.not_awaits (hw : World.Reachable P Alone pid w)
    (h : w.Tracked fd .initiator) : ¬ w.Awaits fd := by
  obtain ⟨hd, se, hreg, hse, hrole⟩ := h
  rintro ⟨hd', se', hreg', hse', hphase⟩
  cases hreg.symm.trans hreg'
  cases hse.symm.trans hse'
  have hmem := List.mem_of_getElem? hse
  have hok := (hw.ok fun _ _ => id).process.sessions se hmem
  obtain ⟨hown, hgone⟩ := hw.process.own se hmem
  obtain ⟨_, _, _, _, hopen⟩ := hok.opening hown
  refine phase_ne_responder (hok.reach hgone) (fun hstart => ?_) hphase
  rw [hrole] at hopen
  cases hopen with
  | failed hp | hybrid hp | fallback hp =>
    rw [hstart] at hp
    cases hp

/-- The end that called `connect` is tracked as an initiator if and only if some `connect`
succeeded or was in progress, and then not both ends wait for a `ClientHello`. -/
theorem World.connect_role (h : Established P w w' fd fd' outcomes) :
    (w.Tracked fd .initiator ↔ Started outcomes) ∧
      (Started outcomes → ¬ (w.Awaits fd ∧ w'.Awaits fd')) := by
  obtain ⟨pid, hw⟩ := h.reachable
  have hfinished : ∀ tid th, w.process.threads tid = some th →
      ¬ Unfinished fd th.call th.trace := by
    intro tid th hth hu
    rcases hu.call with hc | hc
    · exact (h.idle tid th hth).1 hc
    · exact (h.idle tid th hth).2 hc
  have hinit : Started outcomes → w.Tracked fd .initiator := by
    intro hst
    refine (hw.roles.initiator fd _ _ outcomes h.connected hst).resolve_right ?_
    rintro ⟨tid, th, hth, hu⟩
    exact hfinished tid th hth hu
  refine ⟨⟨fun htr => ?_, hinit⟩, fun hst hboth => (hinit hst).not_awaits hw hboth.1⟩
  by_contra hst
  obtain ⟨hd, se, hreg, hse, hrole⟩ := htr
  obtain ⟨hd', se', hreg', hse', hrole'⟩ :=
    hw.roles.responder fd _ _ outcomes h.connected hst (by simp [hreg])
  cases hreg.symm.trans hreg'
  cases hse.symm.trans hse'
  cases hrole.symm.trans hrole'

theorem Effect.unknown {p : Process} {birth : Trace HookResp} (hreg : p.registry fd = none) :
    Effect p birth (.containsKey fd) false p := by
  have he := @Effect.containsKey p birth fd
  rwa [hreg] at he

theorem Effect.known {p : Process} {birth : Trace HookResp} {h : Handle}
    (hreg : p.registry fd = some h) : Effect p birth (.containsKey fd) true p := by
  have he := @Effect.containsKey p birth fd
  rwa [hreg] at he

theorem Served.typed {T : Table} {r : Option ℕ} (hfd : T.soType fd = r) :
    Served T ⟨.soType fd, r⟩ T := hfd ▸ .soType fd

theorem World.awaits_add {p : Process} {birth : Trace HookResp} {st : FdState} {tid : Tid}
    {th : Option Thread} {T : Table} {role : Role}
    (hst : st.phase = .responderAwaitingClientHello) :
    World.Awaits ⟨(p.addSession fd (.new role fd birth st)).setThread tid th, T⟩ fd := by
  refine ⟨p.sessions.length, .new role fd birth st, ?_, ?_, hst⟩
  · simp [Process.setThread, Process.addSession]
  · simp [Process.setThread, Process.addSession]

theorem World.reachable_opened (P : Primitives) (pid : Pid) (fd : Fd) {d : Descriptor}
    (hd : d.New) :
    World.Reachable P Alone pid ⟨.initial pid true, Function.update (fun _ => none) fd (some d)⟩ :=
  World.Reachable.start.opens (fun _ => rfl) rfl hd

/-- The first `recv` on a stream socket that is not tracked adopts it as a responder. -/
theorem World.Reachable.adopts (hw : World.Reachable P Alone pid w) (hrest : w.AtRest)
    (fd : Fd) (hfd : w.table.Stream fd) (hreg : w.process.registry fd = none)
    (suite : CipherSuite) :
    ∃ w', World.Reachable P Alone pid w' ∧ w'.table = w.table ∧ w'.Awaits fd ∧
      ∀ tid th, w'.process.threads tid = some th → th.call = .recv fd (.bytes [0]) 0 := by
  have hstream := Table.stream_iff.mp hfd
  have h₁ := hw.calls hrest 0 (.recv fd (.bytes [0]) 0) 1
  have h₂ := h₁.asks Process.setThread_self rfl (.unknown hreg) (.aloof rfl)
  have h₃ := h₂.asks Process.setThread_self rfl (.soType fd _) (.typed hstream)
  have h₄ := h₃.asks Process.setThread_self rfl (.query .resolvePolicy (some suite) trivial)
    (.aloof rfl)
  have h₅ := h₄.asks Process.setThread_self rfl (.unknown hreg) (.aloof rfl)
  have h₆ := h₅.asks Process.setThread_self rfl (.query .resolvePolicy (some suite) trivial)
    (.aloof rfl)
  have h₇ := h₆.asks Process.setThread_self rfl (.query .getpid _ rfl) (.aloof rfl)
  have h₈ := h₇.asks Process.setThread_self rfl (.query .configEpoch 0 trivial) (.aloof rfl)
  have h₉ := h₈.asks Process.setThread_self rfl (.orInsertVacant fd _ hreg) (.aloof rfl)
  refine ⟨_, h₉, rfl, ?_, fun tid th hth => ?_⟩
  · exact World.awaits_add rfl
  · cases (h₉.ok fun _ _ => id).single tid 0 th _ hth Process.setThread_self
    cases Process.setThread_self.symm.trans hth
    rfl

/-- A `connect` that succeeds on a socket of any type puts it into the registry. -/
theorem World.Reachable.connects (hw : World.Reachable P Alone pid w) (hrest : w.AtRest)
    (fd : Fd) {stype : ℕ} (hfd : w.table fd = some (.socket stype .unconnected [])) :
    ∃ w', World.Reachable P Alone pid w' ∧ w'.AtRest ∧
      w'.table fd = some (.socket stype .connected [⟨0, 0⟩]) ∧ w'.Tracked fd .initiator := by
  have h₁ := hw.calls hrest 0 (.connect fd) 1
  have h₂ := h₁.asks Process.setThread_self rfl (.real (.connect fd) ⟨0, 0⟩)
    (.connect hfd (.success rfl fun _ => .inl rfl))
  have h₃ := h₂.asks Process.setThread_self rfl (.query .resolvePolicy none trivial) (.aloof rfl)
  have h₄ := h₃.asks Process.setThread_self rfl
    (.query .resolvePolicy (some .nistStandard768) trivial) (.aloof rfl)
  have h₅ := h₄.asks Process.setThread_self rfl (.query .pqcControlAvailable false trivial)
    (.aloof rfl)
  have h₆ := h₅.asks Process.setThread_self rfl
    (.query .resolveFallbackPsk (some (ramp 32)) trivial) (.aloof rfl)
  have h₇ := h₆.asks Process.setThread_self rfl
    (.query .resolveFallbackPsk (some (ramp 32)) trivial) (.aloof rfl)
  have h₈ := h₇.asks Process.setThread_self rfl (.query .freshNonce (ramp 16) trivial) (.aloof rfl)
  have h₉ := h₈.asks Process.setThread_self rfl (.query .getpid _ rfl) (.aloof rfl)
  have h₁₀ := h₉.asks Process.setThread_self rfl (.query .configEpoch 0 trivial) (.aloof rfl)
  have h₁₁ := h₁₀.asks Process.setThread_self rfl (.insert fd _) (.aloof rfl)
  have hrest' := h₁₁.atRest_leave Process.setThread_self
  have h₁₂ := h₁₁.leaves Process.setThread_self rfl
  refine ⟨_, h₁₂, hrest', Function.update_self _ _ _, ?_⟩
  refine (h₁₂.roles.initiator fd stype .connected [⟨0, 0⟩] (Function.update_self _ _ _)
    ⟨⟨0, 0⟩, by simp, .inl rfl⟩).resolve_right ?_
  rintro ⟨tid, th, hth, -⟩
  cases (hrest' tid).symm.trans hth

end

/-- Descriptor 3 is connected at once, the peer accepts it as its descriptor 4. -/
theorem World.connect_role_success : ∃ w w', Established specimen w w' 3 4 [⟨0, 0⟩] ∧
    w.Tracked 3 .initiator ∧ w'.Awaits 4 ∧ ¬ (w.Awaits 3 ∧ w'.Awaits 4) := by
  have h₀ := World.reachable_opened specimen 7 3 (.socket sockStream)
  obtain ⟨w, hw, hrest, hfd, -⟩ := h₀.connects (fun _ => rfl) 3 rfl
  have h₀' := World.reachable_opened specimen 8 4 .accepted
  obtain ⟨w', hw', htable, hpeer, -⟩ :=
    h₀'.adopts (fun _ => rfl) 4 ⟨_, _, rfl⟩ rfl .nistStandard768
  have h : Established specimen w w' 3 4 [⟨0, 0⟩] :=
    ⟨⟨7, hw⟩, ⟨8, hw'⟩, hfd, by rw [htable]; rfl,
      fun tid th hth => by cases (hrest tid).symm.trans hth⟩
  have hst : Started [⟨0, 0⟩] := ⟨⟨0, 0⟩, by simp, .inl rfl⟩
  exact ⟨w, w', h, (World.connect_role h).1.mpr hst, hpeer, (World.connect_role h).2 hst⟩

/-- A signal interrupts `connect`, and the kernel goes on to make the connection. The end that
called `connect` is adopted as a responder, as is its peer. -/
theorem World.connect_role_not : ∃ w w', Established specimen w w' 3 4 [⟨-1, EINTR⟩] ∧
    ¬ w.Tracked 3 .initiator ∧ w.Awaits 3 ∧ w'.Awaits 4 := by
  have h₀ := World.reachable_opened specimen 7 3 (.socket sockStream)
  have h₁ := h₀.calls (fun _ => rfl) 0 (.connect 3) 1
  have h₂ := h₁.asks Process.setThread_self rfl (.real (.connect 3) ⟨-1, EINTR⟩)
    (.connect rfl (.background (by decide) (.inr rfl) (.inl rfl)))
  have hrest := h₂.atRest_leave Process.setThread_self
  have h₃ := (h₂.leaves Process.setThread_self rfl).settles 3 .connected rfl (.inl rfl)
  obtain ⟨w, hw, htable, hwait, hcall⟩ := h₃.adopts hrest 3 ⟨_, _, rfl⟩ rfl .nistStandard768
  have h₀' := World.reachable_opened specimen 8 4 .accepted
  obtain ⟨w', hw', htable', hwait', -⟩ :=
    h₀'.adopts (fun _ => rfl) 4 ⟨_, _, rfl⟩ rfl .nistStandard768
  refine ⟨w, w', ⟨⟨7, hw⟩, ⟨8, hw'⟩, by rw [htable]; rfl, by rw [htable']; rfl, ?_⟩, ?_,
    hwait, hwait'⟩
  · intro tid th hth
    rw [hcall tid th hth]
    exact ⟨by simp, by simp⟩
  · exact fun htr => htr.not_awaits hw hwait

/-- Only stream sockets are in the registry, and a hook on any other descriptor passes its
call through. -/
theorem World.tracked_streams {P : Primitives} {pid : Pid} {w : World}
    (hw : World.Reachable P StreamConnects pid w) :
    (∀ fd, w.process.registry fd ≠ none → w.table.Stream fd) ∧
    ∀ tid th, w.process.threads tid = some th → th.call.tracks = true →
      th.call.wellFormed = true → ¬ w.table.Stream th.call.fd → th.PassesThrough := by
  have hok := hw.ok fun _ _ => StreamConnects.toAlone
  refine ⟨hw.streams.registry, fun tid th hth htr hwf hnot => ?_⟩
  refine (hok.process.threads tid th hth).passesThrough htr hwf ⟨fun hmem => ?_, fun hmem => ?_⟩
  · have hkey : w.Confirms ⟨.containsKey th.call.fd, true⟩ := hok.seen tid th hth _ hmem
    exact hnot (hw.streams.registry _ (hkey rfl))
  · have htype : w.Confirms ⟨.soType th.call.fd, some sockStream⟩ := hok.seen tid th hth _ hmem
    exact hnot (Table.stream_iff.mpr (Eq.symm htype))

/-- `send` on a datagram socket. -/
theorem World.tracked_streams_datagram : ∃ w th, World.Reachable specimen StreamConnects 7 w ∧
    w.table 5 = some (.socket 2 .unconnected []) ∧ w.process.threads 0 = some th ∧
    th.call = .send 5 (.bytes (ascii "hi")) 0 ∧ th.PassesThrough := by
  have h₁ : World.Reachable specimen StreamConnects 7 ⟨.initial 7 true,
      Function.update (fun _ => none) 5 (some (.socket 2 .unconnected []))⟩ :=
    .step .start ⟨⟨fun _ _ _ _ => rfl, fun _ _ _ _ => rfl⟩, fun _ _ _ _ _ _ hfd => by cases hfd⟩
      (.opens rfl (.socket 2))
  have h₂ := h₁.step (by exact .of_table ⟨fun _ _ _ _ => rfl, fun _ _ _ _ => rfl⟩ rfl)
    (.calls (fun _ => rfl) 0 (.send 5 (.bytes (ascii "hi")) 0) 1)
  refine ⟨_, _, h₂, rfl, Process.setThread_self, rfl, ?_⟩
  refine (World.tracked_streams h₂).2 0 _ Process.setThread_self rfl rfl ?_
  rintro ⟨l, outcomes, hstream⟩
  cases hstream

/-- `connect` succeeds on a datagram socket, and the next `send` on it does not pass through. -/
theorem World.tracked_streams_not : ∃ w th, World.Reachable specimen Alone 7 w ∧
    w.process.registry 3 ≠ none ∧ ¬ w.table.Stream 3 ∧ w.process.threads 0 = some th ∧
    th.call = .send 3 (.bytes (ascii "hi")) 0 ∧ ¬ th.PassesThrough := by
  have h₀ := World.reachable_opened specimen 7 3 (.socket 2)
  obtain ⟨w, hw, hrest, hfd, hd, se, hreg, -⟩ := h₀.connects (fun _ => rfl) 3 rfl
  have h₁ := hw.calls hrest 0 (.send 3 (.bytes (ascii "hi")) 0) 1
  have h₂ := h₁.asks Process.setThread_self rfl (.known hreg) (.aloof rfl)
  refine ⟨_, _, h₂, ?_, ?_, Process.setThread_self, rfl, fun hpass => ?_⟩
  · exact fun hnone => by cases hreg.symm.trans hnone
  · rintro ⟨l, outcomes, hstream⟩
    cases hfd.symm.trans hstream
  · rcases hpass.makes (.lookup 3) _ rfl with hop | hop | hop <;> cases hop

end SyntriassOverlay

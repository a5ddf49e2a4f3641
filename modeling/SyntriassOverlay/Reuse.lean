import SyntriassOverlay.Tracking

/-!
# Numbers of descriptors that are used again (interceptor.rs:458-489, 1289-1311)

`close` takes the entry out of the registry and then makes the real call. `ensure_tracked`
looks for an entry, asks for the type of the descriptor and then puts a new entry in. Each of
these is one step, and the kernel gives the number of a closed descriptor to the next
connection: an entry that outlives its descriptor is an entry of that connection.
-/

namespace SyntriassOverlay
open Crypto Resumption

/-! ### Calls that overlap -/

/-- The answer for which a hook goes on to put an entry for `fd` into the registry. -/
def Promises (fd : Fd) : Ev HookResp → Prop
  | ⟨.soType fd', r⟩ => fd' = fd ∧ r = some sockStream
  | ⟨.real (.connect fd'), r⟩ => fd' = fd ∧ RealRet.Starts r
  | _ => False

/-- The hook puts an entry for `fd` into the registry, or finds one. -/
def Enrols (fd : Fd) : Ev HookResp → Prop
  | ⟨.insert fd' _, _⟩ | ⟨.orInsert fd' _, _⟩ => fd' = fd
  | ⟨.containsKey fd', r⟩ => fd' = fd ∧ r = true
  | _ => False

/-- Between the answer that `fd` is a stream socket, or that its `connect` has started, and the
entry for it. -/
structure Thread.Adopting (fd : Fd) (th : Thread) : Prop where
  told : ∃ e ∈ th.trace, Promises fd e
  pending : ∀ e ∈ th.trace, ¬ Enrols fd e

/-- Between the two steps of `close(fd)`. -/
structure Thread.Closing (fd : Fd) (th : Thread) : Prop where
  removed : (⟨.remove fd, ()⟩ : Ev HookResp) ∈ th.trace
  pending : ∀ r, (⟨.real (.close fd), r⟩ : Ev HookResp) ∉ th.trace

def World.Apart (fd : Fd) (w : World) : Prop :=
  ∀ tid th tid' th', w.process.threads tid = some th → w.process.threads tid' = some th' →
    th.Closing fd → ¬ th'.Adopting fd

/-- The step does not lead to a hook that adopts `fd` while `close(fd)` is between its two
steps. -/
abbrev StaysApart (fd : Fd) (_ w' : World) : Prop := w'.Apart fd

/-- What a hook was told about `fd`, as far as it leads to an entry in the registry, still
holds. -/
def Table.Attests (T : Table) (fd : Fd) : Ev HookResp → Prop
  | ⟨.soType fd', r⟩ => fd' = fd → r = some sockStream → T.Stream fd
  | ⟨.real (.connect fd'), r⟩ => fd' = fd → RealRet.Starts r →
      ∃ stype l outcomes, T fd = some (.socket stype l outcomes) ∧ r ∈ outcomes
  | _ => True

/-- The socket under `fd` is still there. -/
def Table.Lasts (fd : Fd) (T T' : Table) : Prop :=
  ∀ stype l outcomes, T fd = some (.socket stype l outcomes) →
    ∃ l' more, T' fd = some (.socket stype l' (outcomes ++ more))

/-- The threads of a process in which no hook adopts what another one closes. -/
structure World.Orderly (fd : Fd) (w : World) : Prop where
  apart : w.Apart fd
  seen : ∀ tid th, w.process.threads tid = some th → th.Adopting fd →
    ∀ e ∈ th.trace, w.table.Attests fd e
  closing : ∀ tid th, w.process.threads tid = some th → th.Closing fd →
    w.process.registry fd = none

/-- The entry of `fd` is one of the descriptor that is open under this number. -/
structure World.Vacates (fd : Fd) (w : World) : Prop where
  vacant : w.table fd = none → w.process.registry fd = none
  accepted : ∀ stype outcomes, w.table fd = some (.socket stype .accepted outcomes) →
    ¬ Started outcomes
  responder : ∀ stype outcomes, w.table fd = some (.socket stype .accepted outcomes) →
    w.process.registry fd ≠ none → w.Tracked fd .responder

section
variable {P : Primitives} {pid : Pid} {w w' : World} {p' : Process} {T T' : Table} {fd : Fd}
  {tid : Tid} {th : Thread}

theorem Table.Lasts.refl (T : Table) : Table.Lasts fd T T :=
  fun _ l outcomes hfd => ⟨l, [], by rw [hfd, List.append_nil]⟩

theorem Table.Attests.lasts {e : Ev HookResp} (h : T.Attests fd e) (hlasts : Table.Lasts fd T T') :
    T'.Attests fd e := by
  obtain ⟨o, r⟩ := e
  cases o with
  | soType fd' =>
    intro heq hr
    obtain ⟨l, outcomes, hfd⟩ := h heq hr
    obtain ⟨l', more, hfd'⟩ := hlasts sockStream l outcomes hfd
    exact ⟨l', outcomes ++ more, hfd'⟩
  | real c =>
    cases c with
    | connect fd' =>
      intro heq hr
      obtain ⟨stype, l, outcomes, hfd, hmem⟩ := h heq hr
      obtain ⟨l', more, hfd'⟩ := hlasts stype l outcomes hfd
      exact ⟨stype, l', outcomes ++ more, hfd', List.mem_append_left _ hmem⟩
    | _ => trivial
  | _ => trivial

theorem Table.attests_of_not_promises {e : Ev HookResp} (h : ¬ Promises fd e) :
    T.Attests fd e := by
  obtain ⟨o, r⟩ := e
  cases o with
  | soType fd' => exact fun heq hr => absurd ⟨heq, hr⟩ h
  | real c =>
    cases c with
    | connect fd' => exact fun heq hr => absurd ⟨heq, hr⟩ h
    | _ => trivial
  | _ => trivial

theorem not_promises_remote {e : Ev HookResp} (he : e.op.remote = true) : ¬ Promises fd e := by
  obtain ⟨o, r⟩ := e
  cases o <;> first | exact id | cases he

theorem not_enrols_queried {q : Tr} {e : Ev HookResp} (h : e ∈ q.map queried) : ¬ Enrols fd e := by
  obtain ⟨e', -, rfl⟩ := List.mem_map.mp h
  exact id

theorem Served.lasts {o : HookOp} {r : HookResp o} (h : Served T ⟨o, r⟩ T')
    (hno : o ≠ .real (.close fd)) : Table.Lasts fd T T' := by
  cases h with
  | soType | notSocket | aloof => exact .refl T
  | @connect fd₀ stype l l' outcomes r hfd₀ =>
    intro stype₁ l₁ outcomes₁ hfd
    by_cases heq : fd = fd₀
    · subst heq
      cases hfd₀.symm.trans hfd
      exact ⟨l', [r], by simp⟩
    · exact ⟨l₁, [], by simpa [Function.update_of_ne heq] using hfd⟩
  | close fd₀ =>
    intro stype l outcomes hfd
    have heq : fd ≠ fd₀ := fun heq => hno (by rw [heq])
    exact ⟨l, [], by simpa [Function.update_of_ne heq] using hfd⟩

theorem Served.attests {o : HookOp} {r : HookResp o} (h : Served T ⟨o, r⟩ T') :
    T'.Attests fd ⟨o, r⟩ := by
  cases h with
  | soType fd₀ =>
    rintro rfl hr
    exact Table.stream_iff.mpr hr
  | @connect fd₀ stype l l' outcomes r =>
    rintro rfl hr
    exact ⟨stype, l', outcomes ++ [r], by simp, by simp⟩
  | notSocket _ hr => exact fun _ hstarts => absurd hstarts hr
  | close => trivial
  | aloof he =>
    cases o with
    | soType => cases he
    | real c => cases c <;> trivial
    | _ => trivial

/-! ### One step -/

section
variable {o : HookOp} {k : HookResp o → Prog HookResp Unit HookRet} {r : HookResp o}

theorem Thread.Ok.adopting_insert (hok : th.Ok P pid) {st : FdState}
    {k : Unit → Prog HookResp Unit HookRet} (hprog : th.prog = .call () (.insert fd st) k) :
    th.Adopting fd := by
  obtain ⟨-, r, q, hr, ht⟩ := hok.shape hprog
  refine ⟨⟨⟨.real (.connect fd), r⟩, by simp [ht], rfl, hr⟩, fun e hmem => ?_⟩
  rw [ht] at hmem
  rcases List.mem_cons.mp hmem with rfl | hmem
  · exact id
  · exact not_enrols_queried hmem

theorem Thread.Ok.adopting_orInsert (hok : th.Ok P pid) {st : FdState}
    {k : Unit → Prog HookResp Unit HookRet} (hprog : th.prog = .call () (.orInsert fd st) k) :
    th.Adopting fd := by
  obtain ⟨-, -, q, q', ht⟩ := hok.shape hprog
  refine ⟨⟨⟨.soType fd, some sockStream⟩, by simp [ht, adopting], rfl, rfl⟩, fun e hmem => ?_⟩
  have hfound : ¬ Enrols fd ⟨.containsKey fd, false⟩ := fun h => by cases h.2
  rw [ht, adopting] at hmem
  simp only [List.mem_append, List.mem_cons, List.not_mem_nil, or_false] at hmem
  rcases hmem with (((rfl | rfl) | hmem) | rfl) | hmem
  · exact hfound
  · exact id
  · exact not_enrols_queried hmem
  · exact hfound
  · exact not_enrols_queried hmem

theorem Thread.Ok.closing_real (hok : th.Ok P pid) {k : RealRet → Prog HookResp Unit HookRet}
    (hprog : th.prog = .call () (.real (.close fd)) k) : th.Closing fd := by
  have hshape := hok.shape hprog
  have ht := hshape.2.close fd (HookCall.passThrough_close hshape.1)
  exact ⟨by simp [ht], by simp [ht]⟩

/-- The threads after a step, from what the step does to the registry and to the table. -/
theorem World.Orderly.next (h : w.Orderly fd) (ha : w'.Apart fd)
    (hthreads : ∀ tid th', w'.process.threads tid = some th' →
      (∃ th, w.process.threads tid = some th ∧ th.trace <+: th'.trace ∧ ∀ e ∈ th'.trace,
        e ∈ th.trace ∨ w'.table.Attests fd e ∧
          (e = ⟨.remove fd, ()⟩ → w'.process.registry fd = none)) ∨ th'.trace = [])
    (hlasts : ∀ tid th, w.process.threads tid = some th → th.Adopting fd →
      Table.Lasts fd w.table w'.table)
    (hempty : ∀ tid th, w.process.threads tid = some th → th.Closing fd →
      w'.process.registry fd = none) :
    w'.Orderly fd := by
  refine ⟨ha, fun tid th' hth' hadopt e he => ?_, fun tid th' hth' hclosing => ?_⟩
  · rcases hthreads tid th' hth' with ⟨th, hold, hle, hev⟩ | hnil
    · rcases hev e he with hmem | ⟨hattests, -⟩
      · by_cases hp : Promises fd e
        · -- the thread was already adopting before the step
          have hth : th.Adopting fd :=
            ⟨⟨e, hmem, hp⟩, fun e' he' => hadopt.pending e' (hle.subset he')⟩
          exact (h.seen tid th hold hth e hmem).lasts (hlasts tid th hold hth)
        · exact Table.attests_of_not_promises hp
      · exact hattests
    · rw [hnil] at he
      cases he
  · rcases hthreads tid th' hth' with ⟨th, hold, hle, hev⟩ | hnil
    · rcases hev _ hclosing.removed with hmem | ⟨-, hremoved⟩
      · exact hempty tid th hold ⟨hmem, fun r hr => hclosing.pending r (hle.subset hr)⟩
      · exact hremoved rfl
    · have hmem := hclosing.removed
      rw [hnil] at hmem
      cases hmem

/-- While `close(fd)` is between its two steps, no other thread registers `fd`. -/
theorem World.Orderly.stays_empty (h : w.Orderly fd) (hok : w.process.Ok P)
    (htid : w.process.threads tid = some th) (hprog : th.prog = .call () o k)
    (he : Effect w.process th.trace o r p') {tid' : Tid} {th' : Thread}
    (htid' : w.process.threads tid' = some th') (hclosing : th'.Closing fd) :
    p'.registry fd = none := by
  have hnone := h.closing tid' th' htid' hclosing
  have hapart := h.apart tid' th' tid th htid' htid hclosing
  have hth := hok.threads tid th htid
  have hadd : ∀ fd' se, (fd' = fd → th.Adopting fd) →
      (w.process.addSession fd' se).registry fd = none := by
    intro fd' se hreg
    have hne : fd ≠ fd' := fun heq => hapart (hreg heq.symm)
    simpa [Process.addSession, Function.update_of_ne hne] using hnone
  cases he with
  | insert fd' st =>
    refine hadd fd' _ ?_
    rintro rfl
    exact hth.adopting_insert hprog
  | orInsertVacant fd' st =>
    refine hadd fd' _ ?_
    rintro rfl
    exact hth.adopting_orInsert hprog
  | remove fd' =>
    by_cases heq : fd = fd'
    · simp [heq]
    · simpa [Function.update_of_ne heq] using hnone
  | _ => exact hnone

theorem World.Orderly.hook {T' : Table} (h : w.Orderly fd) (hok : w.process.Ok P)
    (htid : w.process.threads tid = some th) (hprog : th.prog = .call () o k)
    (he : Effect w.process th.trace o r p') (hk : Served w.table ⟨o, r⟩ T')
    (ha : World.Apart fd ⟨p'.setThread tid (some (th.next k r)), T'⟩) :
    World.Orderly fd ⟨p'.setThread tid (some (th.next k r)), T'⟩ := by
  have hother : ∀ tid', tid' ≠ tid →
      (p'.setThread tid (some (th.next k r))).threads tid' = w.process.threads tid' := by
    intro tid' hne
    rw [← he.threads]
    exact Function.update_of_ne hne _ _
  refine h.next ha (fun tid' th' hth' => .inl ?_) (fun tid' th' hth' hadopt => ?_)
    (fun tid' th' hth' hclosing => ?_)
  · by_cases heq : tid' = tid
    · subst heq
      cases Process.setThread_self.symm.trans hth'
      refine ⟨th, htid, List.prefix_append _ _, fun e hmem => ?_⟩
      rcases List.mem_append.mp hmem with hmem | hmem
      · exact .inl hmem
      · rw [List.mem_singleton.mp hmem]
        refine .inr ⟨hk.attests, fun heq => ?_⟩
        cases heq
        cases he
        simp [Process.setThread]
    · exact ⟨th', (hother tid' heq).symm.trans hth', List.prefix_rfl, fun e hmem => .inl hmem⟩
  · refine hk.lasts ?_
    rintro rfl
    exact h.apart tid th tid' th' htid hth' ((hok.threads tid th htid).closing_real hprog) hadopt
  · have hnone := h.stays_empty hok htid hprog he hth' hclosing
    exact hnone

end

theorem World.Orderly.step (h : w.Orderly fd) (hok : w.process.Ok P) (ha : w'.Apart fd)
    (hs : World.Step P w w') : w'.Orderly fd := by
  cases hs with
  | hook htid hprog he hk => exact h.hook hok htid hprog he hk ha
  | @inside p' hs hin =>
    have hq := hin.quiet hs
    refine h.next ha (fun tid th' hth' => ?_) (fun _ _ _ _ => .refl _) ?_
    · rcases hq.threads tid th' hth' with ⟨th, hold, -, hle, hev⟩ | ⟨-, hfresh⟩
      · refine .inl ⟨th, hold, hle, fun e hmem => (hev e hmem).imp_right fun hremote => ?_⟩
        refine ⟨Table.attests_of_not_promises (not_promises_remote hremote), ?_⟩
        rintro rfl
        cases hremote
      · exact .inr hfresh
    · intro tid th hth hclosing
      exact (congrFun hq.registry fd).trans (h.closing tid th hth hclosing)
  | @opens fd' d hfree hd =>
    refine h.next ha
      (fun tid th' hth' => .inl ⟨th', hth', List.prefix_rfl, fun _ hmem => .inl hmem⟩)
      (fun _ _ _ _ stype l outcomes hfd => ?_) h.closing
    have hne : fd ≠ fd' := by
      rintro rfl
      cases hfd.symm.trans hfree
    exact ⟨l, [], by simpa [Function.update_of_ne hne] using hfd⟩
  | @settles fd' stype' outcomes' l' hfd' hl =>
    refine h.next ha
      (fun tid th' hth' => .inl ⟨th', hth', List.prefix_rfl, fun _ hmem => .inl hmem⟩)
      (fun _ _ _ _ stype l outcomes hfd => ?_) h.closing
    by_cases heq : fd = fd'
    · subst heq
      cases hfd.symm.trans hfd'
      exact ⟨l', [], by simp⟩
    · exact ⟨l, [], by simpa [Function.update_of_ne heq] using hfd⟩

/-! ### The entry and the descriptor -/

theorem World.Vacates.same (h : w.Vacates fd) (htable : w'.table fd = w.table fd)
    (hreg : w'.process.registry fd = w.process.registry fd)
    (hrole : w.Tracked fd .responder → w'.Tracked fd .responder) : w'.Vacates fd := by
  refine ⟨fun hnone => ?_, fun stype outcomes hfd => ?_, fun stype outcomes hfd hsome => ?_⟩
  · rw [hreg]
    exact h.vacant (htable.symm.trans hnone)
  · exact h.accepted stype outcomes (htable.symm.trans hfd)
  · rw [hreg] at hsome
    exact hrole (h.responder stype outcomes (htable.symm.trans hfd) hsome)

theorem World.Vacates.add (h : w.Vacates fd) {fd' : Fd} {se : Session}
    (hopen : fd' = fd → w.table fd ≠ none)
    (hrole : fd' = fd → ∀ stype outcomes, w.table fd = some (.socket stype .accepted outcomes) →
      se.role = .responder) :
    World.Vacates fd ⟨w.process.addSession fd' se, w.table⟩ := by
  by_cases heq : fd' = fd
  · refine ⟨fun hnone => absurd hnone (hopen heq), h.accepted, fun stype outcomes hfd _ => ?_⟩
    rw [← hrole heq stype outcomes hfd, heq]
    exact World.tracked_add
  · have hne : fd ≠ fd' := fun h => heq h.symm
    exact h.same rfl (by simp [Process.addSession, Function.update_of_ne hne]) fun htracked =>
      htracked.add hne

theorem World.Vacates.update (h : w.Vacates fd) {fd' : Fd} {d : Option Descriptor}
    (hvacant : fd' = fd → d = none → w.process.registry fd = none)
    (haccepted : fd' = fd → ∀ stype outcomes, d = some (.socket stype .accepted outcomes) →
      ¬ Started outcomes ∧ (w.process.registry fd ≠ none → w.Tracked fd .responder)) :
    World.Vacates fd ⟨w.process, Function.update w.table fd' d⟩ := by
  by_cases heq : fd' = fd
  · subst heq
    refine ⟨fun hnone => hvacant rfl ?_, fun stype outcomes hfd => ?_,
      fun stype outcomes hfd => ?_⟩
    · simpa using hnone
    · exact (haccepted rfl stype outcomes (by simpa using hfd)).1
    · exact (haccepted rfl stype outcomes (by simpa using hfd)).2
  · have hne : fd ≠ fd' := fun h => heq h.symm
    exact h.same (by simp [Function.update_of_ne hne]) rfl fun htracked => htracked

/-- `connect` on an accepted connection does not start. -/
theorem Connects.accepted {stype : ℕ} {l : Link} {r : RealRet} (h : Connects stype l r .accepted) :
    l = .accepted ∧ ¬ r.Starts := by
  cases h with
  | unchanged hr he =>
    refine ⟨rfl, ?_⟩
    rintro (hzero | ⟨-, hin⟩)
    · rw [hzero] at hr
      exact absurd hr (lt_irrefl 0)
    · exact he hin

section
variable {o : HookOp} {k : HookResp o → Prog HookResp Unit HookRet} {r : HookResp o}

theorem World.Orderly.connected (h : w.Orderly fd) (htid : w.process.threads tid = some th)
    (hok : th.Ok P pid) {st : FdState} {k : Unit → Prog HookResp Unit HookRet}
    (hprog : th.prog = .call () (.insert fd st) k) :
    ∃ stype l outcomes, w.table fd = some (.socket stype l outcomes) ∧ Started outcomes := by
  obtain ⟨-, r, q, hr, ht⟩ := hok.shape hprog
  have hseen := h.seen tid th htid (hok.adopting_insert hprog) ⟨.real (.connect fd), r⟩
    (by simp [ht])
  obtain ⟨stype, l, outcomes, hfd, hmem⟩ := hseen rfl hr
  exact ⟨stype, l, outcomes, hfd, r, hmem, hr⟩

theorem World.Orderly.streams (h : w.Orderly fd) (htid : w.process.threads tid = some th)
    (hok : th.Ok P pid) {st : FdState} {k : Unit → Prog HookResp Unit HookRet}
    (hprog : th.prog = .call () (.orInsert fd st) k) : w.table.Stream fd := by
  obtain ⟨-, -, q, q', ht⟩ := hok.shape hprog
  exact h.seen tid th htid (hok.adopting_orInsert hprog) ⟨.soType fd, some sockStream⟩
    (by simp [ht, adopting]) rfl rfl

theorem World.Vacates.hook (h : w.Vacates fd) (horder : w.Orderly fd) (hok : w.process.Ok P)
    (htid : w.process.threads tid = some th) (hprog : th.prog = .call () o k)
    (he : Effect w.process th.trace o r p') (hk : Served w.table ⟨o, r⟩ T') :
    World.Vacates fd ⟨p', T'⟩ := by
  have hth := hok.threads tid th htid
  cases he with
  | containsKey | lookup | query | blockedBypassAttempt | orInsertOccupied =>
    cases hk
    exact h
  | soType => cases hk <;> exact h
  | insert fd' st =>
    cases hk
    refine h.add (fun heq => ?_) fun heq stype outcomes hfd => ?_ <;> subst heq <;>
      obtain ⟨stype', l, outcomes', hfd', hstarted⟩ := horder.connected htid hth hprog
    · simp [hfd']
    · cases hfd.symm.trans hfd'
      exact absurd hstarted (h.accepted stype outcomes hfd)
  | orInsertVacant fd' st hvacant =>
    cases hk
    refine h.add (fun heq => ?_) fun _ _ _ _ => rfl
    subst heq
    obtain ⟨l, outcomes, hfd⟩ := horder.streams htid hth hprog
    simp [hfd]
  | remove fd' =>
    cases hk
    by_cases heq : fd' = fd
    · subst heq
      exact ⟨fun _ => by simp, h.accepted, fun _ _ _ hsome => absurd (by simp) hsome⟩
    · have hne : fd ≠ fd' := fun h => heq h.symm
      have hreg : Function.update w.process.registry fd' none fd = w.process.registry fd :=
        Function.update_of_ne hne _ _
      refine h.same rfl hreg ?_
      rintro ⟨hd, se, hfd, hse⟩
      exact ⟨hd, se, hreg.trans hfd, hse⟩
  | real c r =>
    cases hk with
    | @connect fd' stype l l' outcomes _ hfd hconn =>
      refine h.update (fun _ hd => by cases hd) fun heq stype' outcomes' hd => ?_
      subst heq
      cases hd
      obtain ⟨rfl, hnot⟩ := hconn.accepted
      refine ⟨?_, h.responder stype outcomes hfd⟩
      rintro ⟨r', hmem, hr'⟩
      rcases List.mem_append.mp hmem with hmem | hmem
      · exact h.accepted stype outcomes hfd ⟨r', hmem, hr'⟩
      · rw [List.mem_singleton.mp hmem] at hr'
        exact hnot hr'
    | notSocket | aloof => exact h
    | close fd' =>
      refine h.update (fun heq _ => ?_) fun _ _ _ hd => by cases hd
      subst heq
      exact horder.closing tid th htid (hth.closing_real hprog)

end

theorem World.Vacates.step (h : w.Vacates fd) (horder : w.Orderly fd) (hok : w.process.Ok P)
    (hs : World.Step P w w') : w'.Vacates fd := by
  cases hs with
  | hook htid hprog he hk =>
    exact (h.hook horder hok htid hprog he hk).same rfl rfl fun htracked => htracked
  | inside hs hin =>
    have hq := hin.quiet hs
    exact h.same rfl (congrFun hq.registry fd) fun htracked => htracked.quiet hq
  | @opens fd' d hfree hd =>
    refine h.update (fun _ hnone => by cases hnone) fun heq stype outcomes hsome => ?_
    subst heq
    cases hsome
    cases hd
    refine ⟨?_, fun hreg => absurd (h.vacant hfree) hreg⟩
    rintro ⟨r, hmem, -⟩
    cases hmem
  | @settles fd' stype outcomes l hfd hl =>
    refine h.update (fun _ hnone => by cases hnone) fun _ stype' outcomes' hsome => ?_
    cases hsome
    rcases hl with hl | hl <;> cases hl

theorem World.initial_orderly (pid : Pid) : (World.initial pid).Orderly fd where
  apart := fun _ _ _ _ hth => by cases hth
  seen := fun _ _ hth => by cases hth
  closing := fun _ _ hth => by cases hth

theorem World.initial_vacates (pid : Pid) : (World.initial pid).Vacates fd where
  vacant := fun _ => rfl
  accepted := fun _ _ hfd => by cases hfd
  responder := fun _ _ hfd => by cases hfd

theorem World.Reachable.vacates (h : World.Reachable P (StaysApart fd) pid w) :
    w.Orderly fd ∧ w.Vacates fd := by
  induction h with
  | start => exact ⟨World.initial_orderly pid, World.initial_vacates pid⟩
  | step h ha hs ih =>
    have hok := h.process.ok (Process.initial_ok pid)
    exact ⟨ih.1.step hok ha hs, ih.2.step ih.1 hok hs⟩

/-! ### The connection after the next `accept` -/

/-- The later states of a run whose steps all meet the condition `allowed`. -/
inductive World.Later (P : Primitives) (allowed : World → World → Prop) (w : World) : World → Prop
  | refl : Later P allowed w w
  | step {w₁ w₂ : World} (h : Later P allowed w w₁) (ha : allowed w₁ w₂)
      (hs : World.Step P w₁ w₂) : Later P allowed w w₂

section
variable {allowed : World → World → Prop}

theorem World.Reachable.later (h : World.Reachable P allowed pid w)
    (hl : World.Later P allowed w w') : World.Reachable P allowed pid w' := by
  induction hl with
  | refl => exact h
  | step _ ha hs ih => exact ih.step ha hs

theorem World.Later.fresh (h : World.Later P allowed w w') (hnone : w.process.registry fd = none) :
    w.process.sessions.length ≤ w'.process.sessions.length ∧
      ∀ i, w'.process.registry fd = some i → w.process.sessions.length ≤ i := by
  induction h with
  | refl => exact ⟨le_rfl, fun i hi => by cases hnone.symm.trans hi⟩
  | @step w₁ w₂ _ _ hs ih =>
    rcases hs.process with hp | hp
    · refine ⟨ih.1.trans hp.sessions_length, fun i hi => ?_⟩
      rcases hp.registry hi with hold | rfl
      · exact ih.2 i hold
      · exact ih.1
    · rw [hp]
      exact ih

end

/-- A closed descriptor leaves nothing behind: its number has no entry, and a connection that
is accepted under this number afterwards is only ever tracked by a session that did not exist
before, and that was built as a responder. -/
structure World.LeavesNothing (P : Primitives) (allowed : World → World → Prop) (fd : Fd)
    (w : World) : Prop where
  vacant : w.table fd = none → (∀ tid th, w.process.threads tid = some th → th.call.fd ≠ fd) →
    w.process.registry fd = none
  adopted : w.table fd = none → (∀ tid th, w.process.threads tid = some th → th.call.fd ≠ fd) →
    ∀ w', World.Later P allowed
      ⟨w.process, Function.update w.table fd (some (.socket sockStream .accepted []))⟩ w' →
    ∀ outcomes, w'.table fd = some (.socket sockStream .accepted outcomes) →
    ∀ i, w'.process.registry fd = some i → w.process.sessions.length ≤ i ∧
      ∃ se, w'.process.sessions[i]? = some se ∧ se.role = .responder ∧
        BuiltResponder se.birth se.start

/-! ### Any interleaving -/

theorem Inside.of_threads {p : Process} (h : p'.threads = p.threads) : Inside p p' := by
  intro tid th th' hth hth'
  rw [h] at hth'
  cases hth.symm.trans hth'
  exact .inl rfl

theorem Inside.of_thread {p : Process} (tid : Tid)
    (hother : ∀ tid', tid' ≠ tid → p'.threads tid' = p.threads tid')
    (hself : ∀ th th', p.threads tid = some th → p'.threads tid = some th' →
      ∃ o h c a, ∃ r : HookResp o, Enters o h c a r ∧ th'.trace = th.trace ++ [⟨o, r⟩]) :
    Inside p p' := by
  intro tid' th th' hth hth'
  by_cases heq : tid' = tid
  · subst heq
    exact .inr (hself th th' hth hth')
  · rw [hother tid' heq] at hth'
    cases hth.symm.trans hth'
    exact .inl rfl

namespace World.Reachable
variable {o : HookOp} {k : HookResp o → Prog HookResp Unit HookRet} {r : HookResp o}
  {i : Handle} {c : FdCall} {a : FdRet} {se : Session} {s : FdState}
  {allowed : World → World → Prop}
variable (hw : World.Reachable P allowed pid w)
include hw

theorem starts (tid : Tid) (htid : w.process.threads tid = none) (c : HookCall) (fuel : ℕ)
    (ha : allowed w ⟨w.process.setThread tid (some ⟨c, fuel, [], c.body P fuel ()⟩), w.table⟩) :
    World.Reachable P allowed pid
      ⟨w.process.setThread tid (some ⟨c, fuel, [], c.body P fuel ()⟩), w.table⟩ := by
  have hs : Process.Step P w.process (w.process.setThread tid
      (some ⟨c, fuel, [], c.run P fuel w.process.interpositionEnabled ()⟩)) := .call htid c fuel
  rw [(hw.process.ok (Process.initial_ok pid)).enabled] at hs
  refine hw.step ha (.inside hs (.of_thread tid (fun tid' hne => ?_) fun th _ hth => ?_))
  · exact Function.update_of_ne hne _ _
  · cases htid.symm.trans hth

theorem does (tid : Tid) {T' : Table} (htid : w.process.threads tid = some th)
    (hprog : th.prog = .call () o k) (he : Effect w.process th.trace o r p')
    (hk : Served w.table ⟨o, r⟩ T')
    (ha : allowed w ⟨p'.setThread tid (some (th.next k r)), T'⟩) :
    World.Reachable P allowed pid ⟨p'.setThread tid (some (th.next k r)), T'⟩ :=
  hw.step ha (.hook htid hprog he hk)

theorem locks (tid : Tid) (htid : w.process.threads tid = some th)
    (hprog : th.prog = .call () o k) (he : Enters o i c a r)
    (hse : w.process.sessions[i]? = some se) (hidle : se.status = .idle s)
    (hfree : se.holder = none)
    (ha : allowed w ⟨w.process.setSession i
      { se with status := .busy c (c.run P s), holder := some (.thread tid) }, w.table⟩) :
    World.Reachable P allowed pid ⟨w.process.setSession i
      { se with status := .busy c (c.run P s), holder := some (.thread tid) }, w.table⟩ :=
  hw.step ha (.inside (.lock htid hprog he hse hidle hfree) (.of_threads rfl))

theorem hears (i : Handle) (o : Op) (r : Resp o) {k : Resp o → Prog Resp FdState FdRet}
    (hse : w.process.sessions[i]? = some se) (hbusy : se.status = .busy c (.call s o k))
    (hholder : se.holder ≠ some .gone) (hr : Answers w.process.pid o r)
    (ha : allowed w ⟨w.process.setSession i
      { se with trace := se.trace ++ [⟨o, r⟩], status := .busy c (k r) }, w.table⟩) :
    World.Reachable P allowed pid ⟨w.process.setSession i
      { se with trace := se.trace ++ [⟨o, r⟩], status := .busy c (k r) }, w.table⟩ :=
  hw.step ha (.inside (.answer hse hbusy hholder r hr) (.of_threads rfl))

theorem unlocks (tid : Tid) (htid : w.process.threads tid = some th)
    (hprog : th.prog = .call () o k) (he : Enters o i c a r)
    (hse : w.process.sessions[i]? = some se) (hdone : se.status = .busy c (.done s a))
    (hholder : se.holder = some (.thread tid))
    (ha : allowed w ⟨(w.process.setSession i
      { se with log := se.log ++ [(c, a)], status := .idle s, holder := none }).setThread tid
        (some (th.next k r)), w.table⟩) :
    World.Reachable P allowed pid ⟨(w.process.setSession i
      { se with log := se.log ++ [(c, a)], status := .idle s, holder := none }).setThread tid
        (some (th.next k r)), w.table⟩ := by
  refine hw.step ha (.inside (.unlock htid hprog he hse hdone hholder)
    (.of_thread tid (fun tid' hne => Function.update_of_ne hne _ _) fun th₀ th₁ h₀ h₁ => ?_))
  cases h₀.symm.trans htid
  cases Process.setThread_self.symm.trans h₁
  exact ⟨o, i, c, a, r, he, rfl⟩

theorem returns (tid : Tid) {a : HookRet} (htid : w.process.threads tid = some th)
    (hprog : th.prog = .done () a)
    (ha : allowed w ⟨{ w.process.setThread tid none with
      finished := w.process.finished ++ [th] }, w.table⟩) :
    World.Reachable P allowed pid ⟨{ w.process.setThread tid none with
      finished := w.process.finished ++ [th] }, w.table⟩ := by
  refine hw.step ha (.inside (.leave htid hprog)
    (.of_thread tid (fun tid' hne => Function.update_of_ne hne _ _) fun th₀ th₁ h₀ h₁ => ?_))
  cases (Process.setThread_self (p := w.process)).symm.trans h₁

end World.Reachable

/-- Threads run in any order. -/
abbrev AnyOrder (_ _ : World) : Prop := True

/-! ### Steps that keep apart -/

theorem World.Apart.of_le (h : w.Apart fd)
    (hle : ∀ tid th', w'.process.threads tid = some th' →
      (∃ th, w.process.threads tid = some th ∧ (th'.Closing fd → th.Closing fd) ∧
        (th'.Adopting fd → th.Adopting fd)) ∨ th'.trace = []) : w'.Apart fd := by
  intro tid₁ th₁ tid₂ th₂ h₁ h₂ hclosing hadopt
  rcases hle tid₁ th₁ h₁ with ⟨th₁', hold₁, hc₁, -⟩ | hnil
  · rcases hle tid₂ th₂ h₂ with ⟨th₂', hold₂, -, ha₂⟩ | hnil
    · exact h tid₁ th₁' tid₂ th₂' hold₁ hold₂ (hc₁ hclosing) (ha₂ hadopt)
    · obtain ⟨e, hmem, -⟩ := hadopt.told
      rw [hnil] at hmem
      cases hmem
  · have hmem := hclosing.removed
    rw [hnil] at hmem
    cases hmem

theorem World.Apart.set (h : w.Apart fd) (hthreads : p'.threads = w.process.threads)
    {new : Option Thread}
    (hnew : ∀ th', new = some th' →
      (∃ th, w.process.threads tid = some th ∧ (th'.Closing fd → th.Closing fd) ∧
        (th'.Adopting fd → th.Adopting fd)) ∨ th'.trace = []) :
    World.Apart fd ⟨p'.setThread tid new, T'⟩ := by
  refine h.of_le fun tid' th' hth' => ?_
  by_cases heq : tid' = tid
  · subst heq
    exact hnew th' (Process.setThread_self.symm.trans hth')
  · have hold : p'.threads tid' = some th' := (Function.update_of_ne heq _ _).symm.trans hth'
    rw [hthreads] at hold
    exact .inl ⟨th', hold, id, id⟩

/-- A call that is not the one after which a hook adopts `fd`, and not the removal. -/
theorem World.Apart.next {o : HookOp} {k : HookResp o → Prog HookResp Unit HookRet} {r : HookResp o}
    (h : w.Apart fd) (htid : w.process.threads tid = some th)
    (hthreads : p'.threads = w.process.threads) (hp : ¬ Promises fd ⟨o, r⟩) (hr : o ≠ .remove fd) :
    World.Apart fd ⟨p'.setThread tid (some (th.next k r)), T'⟩ := by
  refine h.set hthreads fun th' heq => .inl ⟨th, htid, fun hc => ?_, fun ha => ?_⟩ <;> cases heq
  · refine ⟨?_, fun r' hmem => hc.pending r' (List.mem_append_left _ hmem)⟩
    rcases List.mem_append.mp hc.removed with hmem | hmem
    · exact hmem
    · cases List.mem_singleton.mp hmem
      exact absurd rfl hr
  · refine ⟨?_, fun e hmem => ha.pending e (List.mem_append_left _ hmem)⟩
    obtain ⟨e, hmem, he⟩ := ha.told
    rcases List.mem_append.mp hmem with hmem | hmem
    · exact ⟨e, hmem, he⟩
    · cases List.mem_singleton.mp hmem
      exact absurd he hp

theorem World.Apart.leave (h : w.Apart fd) {l : List Thread} :
    World.Apart fd ⟨{ w.process.setThread tid none with finished := l }, T'⟩ :=
  have hset : World.Apart fd ⟨w.process.setThread tid none, T'⟩ :=
    h.set rfl fun _ heq => by cases heq
  hset

theorem World.Reachable.listens (hw : World.Reachable P (StaysApart fd) pid w) {i : Handle}
    {se : Session} {T : Table} : World.Apart fd ⟨w.process.setSession i se, T⟩ :=
  hw.vacates.1.apart

theorem World.Reachable.proceeds {o : HookOp} {k : HookResp o → Prog HookResp Unit HookRet}
    {r : HookResp o} (hw : World.Reachable P (StaysApart fd) pid w) (tid : Tid)
    (htid : w.process.threads tid = some th) (hprog : th.prog = .call () o k)
    (he : Effect w.process th.trace o r p') (hk : Served w.table ⟨o, r⟩ T')
    (hp : ¬ Promises fd ⟨o, r⟩) (hr : o ≠ .remove fd) :
    World.Reachable P (StaysApart fd) pid ⟨p'.setThread tid (some (th.next k r)), T'⟩ :=
  hw.does tid htid hprog he hk (hw.vacates.1.apart.next htid he.threads hp hr)

theorem World.Reachable.concludes {o : HookOp} {k : HookResp o → Prog HookResp Unit HookRet}
    {r : HookResp o} {i : Handle} {c : FdCall} {a : FdRet} {se : Session} {s : FdState}
    (hw : World.Reachable P (StaysApart fd) pid w) (tid : Tid)
    (htid : w.process.threads tid = some th) (hprog : th.prog = .call () o k)
    (he : Enters o i c a r) (hse : w.process.sessions[i]? = some se)
    (hdone : se.status = .busy c (.done s a)) (hholder : se.holder = some (.thread tid)) :
    World.Reachable P (StaysApart fd) pid ⟨(w.process.setSession i
      { se with log := se.log ++ [(c, a)], status := .idle s, holder := none }).setThread tid
        (some (th.next k r)), w.table⟩ := by
  refine hw.unlocks tid htid hprog he hse hdone hholder (hw.vacates.1.apart.next htid rfl ?_ ?_)
  · cases he <;> exact id
  · rintro rfl
    cases he

/-! ### Descriptors that are closed -/

/-- Descriptors that no hook adopts while another one closes them. -/
theorem World.closed_leavesNothing (h : World.Reachable P (StaysApart fd) pid w) :
    w.LeavesNothing P (StaysApart fd) fd where
  vacant := fun hnone _ => h.vacates.2.vacant hnone
  adopted := fun hnone _ w' hl outcomes hfd i hi => by
    have hempty := h.vacates.2.vacant hnone
    have hopened : World.Reachable P (StaysApart fd) pid
        ⟨w.process, Function.update w.table fd (some (.socket sockStream .accepted []))⟩ := by
      exact h.step h.vacates.1.apart (.opens hnone .accepted)
    have hw' := hopened.later hl
    refine ⟨(hl.fresh hempty).2 i hi, ?_⟩
    obtain ⟨i', se, hi', hse, hrole⟩ := hw'.vacates.2.responder sockStream outcomes hfd
      (by rw [hi]; exact Option.some_ne_none i)
    cases hi'.symm.trans hi
    have hmem := List.mem_of_getElem? hse
    have hborn := ((hw'.process.ok (Process.initial_ok pid)).sessions se hmem).born
      (hw'.process.own se hmem).1
    rw [hrole] at hborn
    exact ⟨se, hse, hrole, hborn⟩

end

/-- One thread adopts a connection and waits in `send` for the peer, the other one closes it. The
first is told so, gives up and returns. -/
theorem World.closed_leavesNothing_overlapped : ∃ w, World.Reachable specimen (StaysApart 3) 7 w ∧
    w.process.finished.map Thread.call = [.close 3, .send 3 (.bytes (ascii "hi")) 0] ∧
    w.table 3 = none ∧ w.process.sessions.length = 1 ∧
    w.LeavesNothing specimen (StaysApart 3) 3 := by
  have h₀ : World.Reachable specimen (StaysApart 3) 7
      ⟨.initial 7 true,
        Function.update (fun _ => none) 3 (some (.socket sockStream .accepted []))⟩ :=
    World.Reachable.start.step (fun _ _ _ _ hth => by cases hth) (.opens rfl .accepted)
  have h₁ := h₀.starts 1 rfl (.send 3 (.bytes (ascii "hi")) 0) 8 fun tid th tid' th' hth _ hc => by
    rcases tid with _ | _ | tid <;> cases hth
    cases hc.removed
  have h₂ := h₁.proceeds 1 rfl rfl (.unknown rfl) (.aloof rfl) id (by simp)
  -- nothing is being closed when the connection is found to be one
  have h₃ := h₂.does 1 rfl rfl (.soType 3 _) (.typed rfl) fun tid th tid' th' hth _ hc => by
    rcases tid with _ | _ | tid <;> cases hth
    simpa using hc.removed
  have h₄ := h₃.proceeds 1 rfl rfl (.query .resolvePolicy (some .nistStandard768) trivial)
    (.aloof rfl) id (by simp)
  have h₅ := h₄.proceeds 1 rfl rfl (.unknown rfl) (.aloof rfl) id (by simp)
  have h₆ := h₅.proceeds 1 rfl rfl (.query .resolvePolicy (some .nistStandard768) trivial)
    (.aloof rfl) id (by simp)
  have h₇ := h₆.proceeds 1 rfl rfl (.query .getpid 7 rfl) (.aloof rfl) id (by simp)
  have h₈ := h₇.proceeds 1 rfl rfl (.query .configEpoch 0 trivial) (.aloof rfl) id (by simp)
  have h₉ := h₈.proceeds 1 rfl rfl (.orInsertVacant 3 _ rfl) (.aloof rfl) id (by simp)
  have h₁₀ := h₉.proceeds 1 rfl rfl (.lookup 3) (.aloof rfl) id (by simp)
  have h₁₁ := h₁₀.locks 1 rfl rfl (.send 0 _ _ _ (.error EBADF)) rfl rfl rfl h₁₀.listens
  have h₁₂ := h₁₁.hears 0 .getpid 7 rfl rfl (by simp) rfl h₁₁.listens
  have h₁₃ := h₁₂.hears 0 .configEpoch 0 rfl rfl (by simp) trivial h₁₂.listens
  have h₁₄ := h₁₃.hears 0 .getfl none rfl rfl (by simp) trivial h₁₃.listens
  have h₁₅ := h₁₄.starts 2 rfl (.close 3) 8
    (h₁₄.vacates.1.apart.set rfl fun th' heq => by cases heq; exact .inr rfl)
  -- the entry is there, so that nothing is being adopted when it is removed
  have h₁₆ := h₁₅.does 2 rfl rfl (.remove 3) (.aloof rfl) fun tid th tid' th' _ hth' _ ha => by
    rcases tid' with _ | _ | _ | tid' <;> cases hth'
    · exact ha.pending _
        (List.mem_append_left _ (List.mem_append_right _ (List.mem_singleton_self _))) rfl
    · obtain ⟨e, hmem, he⟩ := ha.told
      cases List.mem_singleton.mp hmem
      exact he
  have h₁₇ := h₁₆.proceeds 2 rfl rfl (.real (.close 3) ⟨0, 0⟩) (.close 3 _) id (by simp)
  have h₁₈ := h₁₇.returns 2 rfl rfl h₁₇.vacates.1.apart.leave
  have h₁₉ := h₁₈.hears 0 (.recv _) (.error EBADF) rfl rfl (by simp) trivial h₁₈.listens
  have h₂₀ := h₁₉.hears 0 (.note _) () rfl rfl (by simp) trivial h₁₉.listens
  have h₂₁ := h₂₀.concludes 1 rfl rfl (.send 0 _ _ _ (.error EBADF)) rfl rfl rfl
  have h₂₂ := h₂₁.returns 1 rfl rfl h₂₁.vacates.1.apart.leave
  exact ⟨_, h₂₂, rfl, rfl, rfl, World.closed_leavesNothing h₂₂⟩

/-- One thread sends on a connection that was just accepted, the other closes it. The first asks
for the type of the descriptor, the second removes the entry, the first puts one in, and the
second closes the descriptor. What `send` then finds closed it gives up on. -/
theorem World.closed_leavesNothing_not : ∃ w, World.Reachable specimen AnyOrder 7 w ∧ w.AtRest ∧
    w.process.finished.map Thread.call = [.close 3, .send 3 (.bytes (ascii "hi")) 0] ∧
    w.table 3 = none ∧ (∃ i se s, w.process.registry 3 = some i ∧
      w.process.sessions[i]? = some se ∧ se.status = .idle s ∧ s.phase = .failed) ∧
    ¬ w.LeavesNothing specimen AnyOrder 3 := by
  have h₀ : World.Reachable specimen AnyOrder 7
      ⟨.initial 7 true,
        Function.update (fun _ => none) 3 (some (.socket sockStream .accepted []))⟩ :=
    World.Reachable.start.step trivial (.opens rfl .accepted)
  have h₁ := h₀.starts 1 rfl (.send 3 (.bytes (ascii "hi")) 0) 8 trivial
  have h₂ := h₁.does 1 rfl rfl (.unknown rfl) (.aloof rfl) trivial
  have h₃ := h₂.does 1 rfl rfl (.soType 3 _) (.typed rfl) trivial
  have h₄ := h₃.does 1 rfl rfl (.query .resolvePolicy (some .nistStandard768) trivial)
    (.aloof rfl) trivial
  have h₅ := h₄.starts 2 rfl (.close 3) 8 trivial
  have h₆ := h₅.does 2 rfl rfl (.remove 3) (.aloof rfl) trivial
  have h₇ := h₆.does 1 rfl rfl (.unknown rfl) (.aloof rfl) trivial
  have h₈ := h₇.does 1 rfl rfl (.query .resolvePolicy (some .nistStandard768) trivial)
    (.aloof rfl) trivial
  have h₉ := h₈.does 1 rfl rfl (.query .getpid 7 rfl) (.aloof rfl) trivial
  have h₁₀ := h₉.does 1 rfl rfl (.query .configEpoch 0 trivial) (.aloof rfl) trivial
  have h₁₁ := h₁₀.does 1 rfl rfl (.orInsertVacant 3 _ rfl) (.aloof rfl) trivial
  have h₁₂ := h₁₁.does 2 rfl rfl (.real (.close 3) ⟨0, 0⟩) (.close 3 _) trivial
  have h₁₃ := h₁₂.returns 2 rfl rfl trivial
  have h₁₄ := h₁₃.does 1 rfl rfl (.lookup 3) (.aloof rfl) trivial
  have h₁₅ := h₁₄.locks 1 rfl rfl (.send 0 _ _ _ (.error EBADF)) rfl rfl rfl trivial
  have h₁₆ := h₁₅.hears 0 .getpid 7 rfl rfl (by simp) rfl trivial
  have h₁₇ := h₁₆.hears 0 .configEpoch 0 rfl rfl (by simp) trivial trivial
  have h₁₈ := h₁₇.hears 0 .getfl none rfl rfl (by simp) trivial trivial
  have h₁₉ := h₁₈.hears 0 (.recv _) (.error EBADF) rfl rfl (by simp) trivial trivial
  have h₂₀ := h₁₉.hears 0 (.note _) () rfl rfl (by simp) trivial trivial
  have h₂₁ := h₂₀.unlocks 1 rfl rfl (.send 0 _ _ _ (.error EBADF)) rfl rfl rfl trivial
  have h₂₂ := h₂₁.returns 1 rfl rfl trivial
  refine ⟨_, h₂₂, fun tid => ?_, rfl, rfl, ⟨0, _, _, rfl, rfl, rfl, rfl⟩, fun hl => ?_⟩
  · rcases tid with _ | _ | _ | tid <;> rfl
  · cases hl.vacant rfl fun tid th hth => by rcases tid with _ | _ | _ | tid <;> cases hth

end SyntriassOverlay

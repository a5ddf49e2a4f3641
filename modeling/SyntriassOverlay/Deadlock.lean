import SyntriassOverlay.Locking
import SyntriassOverlay.Crypto.Specimen

/-!
# Threads that wait for each other (interceptor.rs:449-504, fd_state.rs:346-411)

Any number of threads are inside hooks, and the reload thread inside the handler of a
configuration change. A thread waits for a mutex, for a cell that another thread initialises, or
for the `RwLock`. Every thread takes them in the order of their rank, so that among the threads
that wait for each other there is always one that waits for none of them.
-/

namespace SyntriassOverlay
namespace Locking
open Crypto Resumption Ownership

/-! ### The process -/

/-- The calls in progress and the locks in use, the registry's map, and the cells that are
initialised. -/
structure Machine where
  threads : Pool LockResp Token Unit Unit
  entries : Fd → Option Handle
  isReady : Cell → Bool

namespace Machine

def start : Machine := ⟨⟨∅, fun _ => none⟩, fun _ => none, fun _ => false⟩

/-- The reload thread can be started, and stderr is not a socket. The descriptors that are asked
about while the configuration is initialised are those of its files. -/
def Answers (M : Machine) (H : Set Token) : (o : LockOp) → LockResp o → Prop
  | .force c, r => r = !M.isReady c
  | .spawn, r => r = true
  | .hook _ (.containsKey fd), r => r = (M.entries fd).isSome
  | .hook _ (.lookup fd), r => r = M.entries fd
  | .hook _ (.soType fd), r => r = some sockStream → fd ≠ stderrFd ∧ Token.cell .config ∉ H
  | .hook _ (.real (.connect fd)), r => r.Starts → fd ≠ stderrFd
  | _, _ => True

end Machine

def LockOp.changesEntries : LockOp → Bool
  | .hook _ (.insert _ _) | .hook _ (.orInsert _ _) | .hook _ (.remove _) => true
  | _ => false

/-- What a call does to the registry's map. -/
inductive Entry : LockOp → (Fd → Option Handle) → (Fd → Option Handle) → Prop
  | insert {m : Fd → Option Handle} {nested : Bool} {fd : Fd} {st : FdState} (h : Handle) :
      Entry (.hook nested (.insert fd st)) m (Function.update m fd (some h))
  | vacant {m : Fd → Option Handle} {nested : Bool} {fd : Fd} {st : FdState} (h : Handle)
      (hfd : m fd = none) : Entry (.hook nested (.orInsert fd st)) m (Function.update m fd (some h))
  | occupied {m : Fd → Option Handle} {nested : Bool} {fd : Fd} {st : FdState}
      (hfd : m fd ≠ none) : Entry (.hook nested (.orInsert fd st)) m m
  | remove {m : Fd → Option Handle} {nested : Bool} {fd : Fd} :
      Entry (.hook nested (.remove fd)) m (Function.update m fd none)
  | other {m : Fd → Option Handle} {o : LockOp} (ho : o.changesEntries = false) : Entry o m m

def readyAfter (isReady : Cell → Bool) : LockOp → Cell → Bool
  | .ready c => Function.update isReady c true
  | _ => isReady

section
variable (P : Primitives) (interpositionEnabled : Bool)

def Started (own : Set Token) (p : Prog LockResp Unit Unit) : Prop :=
  own = ∅ ∧ ∃ fuel depth c, p = ThreadCall.run P fuel interpositionEnabled depth c ()

/-- A call is made, or the pending call of the thread `i` is answered. A lock is only given to
one, and not before it is free. -/
inductive Machine.Step (M : Machine) (i : ℕ) : Machine → Prop
  | enter {p : Prog LockResp Unit Unit} (hi : M.threads.workers i = none)
      (hp : Started P interpositionEnabled ∅ p) :
      Step M i ⟨.put (M.threads.live ∪ ∅) M.threads i ⟨∅, p, [], p⟩, M.entries, M.isReady⟩
  | answer {a : Worker LockResp Token Unit Unit} {o : LockOp}
      {k : LockResp o → Prog LockResp Unit Unit} {entries : Fd → Option Handle}
      (hi : M.threads.workers i = some a) (hcall : a.prog = .call () o k) (r : LockResp o)
      (hfree : Disjoint (locks.gains ⟨o, r⟩) (M.threads.live \ locks.drops o))
      (hr : M.Answers (a.holds locks) o r) (he : Entry o M.entries entries) :
      Step M i ⟨.put (locks.after M.threads.live ⟨o, r⟩) M.threads i
        { a with trace := a.trace ++ [⟨o, r⟩], prog := k r }, entries, readyAfter M.isReady o⟩

inductive Machine.Reachable : Machine → Prop
  | start : Reachable .start
  | step {M M' : Machine} {i : ℕ} : Reachable M → Machine.Step P interpositionEnabled M i M' →
      Reachable M'

/-- A cell is being initialised by one thread or ready, and there are entries only once the
configuration is there. -/
structure Machine.Ok (M : Machine) : Prop where
  apart : M.threads.Apart locks (Started P interpositionEnabled)
  possible : ∀ i a, M.threads.workers i = some a → Possible a.trace
  ready : ∀ i a c, M.threads.workers i = some a → Forced a.trace c → M.isReady c = true
  idle : ∀ i a c, M.threads.workers i = some a → Token.cell c ∈ a.holds locks →
    M.isReady c = false
  entry : ∀ fd h, M.entries fd = some h → fd ≠ stderrFd ∧ M.isReady .config = true
  used : ∀ x ∈ M.threads.live, ∃ i a, M.threads.workers i = some a ∧ x ∈ a.holds locks

end

section
variable {P : Primitives} {interpositionEnabled : Bool} {M M' : Machine} {i : ℕ}
  {a : Worker LockResp Token Unit Unit}

theorem Machine.Ok.holds_eq (h : M.Ok P interpositionEnabled)
    (hi : M.threads.workers i = some a) : a.holds locks = locks.held ∅ a.trace := by
  rw [Worker.holds, (h.apart.ok i a hi).spawned.1]

/-- Every thread is somewhere in a program that keeps to the order. -/
theorem Machine.Ok.safe (h : M.Ok P interpositionEnabled) (hi : M.threads.workers i = some a) :
    Safe lockInv (fun t' _ _ => [] <+: t' ∧ Has ∅ t') a.prog a.trace := by
  have hok := h.apart.ok i a hi
  obtain ⟨-, fuel, depth, c, hstart⟩ := hok.spawned
  have hcalm : Calm ∅ (ThreadCall.run P fuel interpositionEnabled depth c) :=
    ThreadCall.run_calm depth c
  have hrun := hcalm [] fun _ => rfl
  rw [← hstart] at hrun
  exact safe_at hrun hok.ran

theorem Machine.Ok.pending (h : M.Ok P interpositionEnabled) (hi : M.threads.workers i = some a)
    {s : Unit} {o : LockOp} {k : LockResp o → Prog LockResp Unit Unit}
    (hcall : a.prog = .call s o k) : locks.uses o ⊆ a.holds locks ∧ Ordered a.trace o := by
  have hsafe := h.safe hi
  rw [hcall] at hsafe
  rw [h.holds_eq hi]
  exact hsafe.1 (h.possible i a hi)

/-- What a thread is answered is possible. While the configuration is initialised there are no
entries yet. -/
theorem Machine.Ok.credible (h : M.Ok P interpositionEnabled)
    (hi : M.threads.workers i = some a) {o : LockOp} {r : LockResp o}
    (hr : M.Answers (a.holds locks) o r) : Credible a.trace ⟨o, r⟩ := by
  cases o with
  | force c =>
    intro hfirst hforced
    have hready := h.ready i a c hi hforced
    have hanswer : r = !M.isReady c := hr
    rw [hready, hfirst] at hanswer
    cases hanswer
  | spawn => exact hr
  | hook nested o =>
    cases o with
    | containsKey fd =>
      intro hknown
      have hanswer : r = (M.entries fd).isSome := hr
      obtain ⟨hd, hentry⟩ := Option.isSome_iff_exists.mp (hanswer.symm.trans hknown)
      obtain ⟨hne, hready⟩ := h.entry fd hd hentry
      refine ⟨hne, fun hheld => ?_⟩
      rw [← h.holds_eq hi] at hheld
      have hnot := h.idle i a .config hi hheld
      rw [hready] at hnot
      cases hnot
    | soType fd =>
      intro hstream
      have hanswer := hr hstream
      rwa [h.holds_eq hi] at hanswer
    | real c =>
      cases c with
      | connect fd => exact hr
      | _ => trivial
    | _ => trivial
  | _ => trivial

theorem ready_readyAfter {isReady : Cell → Bool} {c : Cell} (h : isReady c = true) (o : LockOp) :
    readyAfter isReady o c = true := by
  cases o with
  | ready c' =>
    by_cases hc : c = c'
    · subst hc
      simp [readyAfter]
    · simp [readyAfter, Function.update_of_ne hc, h]
  | _ => exact h

theorem readyAfter_eq {isReady : Cell → Bool} {c : Cell} {o : LockOp} (h : o ≠ .ready c) :
    readyAfter isReady o c = isReady c := by
  cases o with
  | ready c' =>
    have hc : c ≠ c' := fun hc => h (hc ▸ rfl)
    simp [readyAfter, Function.update_of_ne hc]
  | _ => rfl

/-- A cell is taken by who finds it not initialised. -/
theorem cell_mem_gains {c : Cell} {e : Ev LockResp} (h : Token.cell c ∈ locks.gains e) :
    e = ⟨.force c, true⟩ := by
  obtain ⟨o, r⟩ := e
  cases o with
  | lock x => cases h
  | readLock => cases h
  | writeLock =>
    obtain ⟨n, hn⟩ := h
    cases hn
  | tryLock hd =>
    cases r with
    | true => cases h
    | false => cases h
  | force c' =>
    cases r with
    | true =>
      cases h
      rfl
    | false => cases h
  | _ => cases h

theorem forced_concat {t : LockTr} {e : Ev LockResp} {c : Cell} (h : Forced (t ++ [e]) c) :
    Forced t c ∨ e = ⟨.force c, false⟩ ∨ e = ⟨.ready c, ()⟩ := by
  rcases h with h | h
  · rcases List.mem_append.mp h with h | h
    · exact .inl (.inl h)
    · exact .inr (.inl (List.mem_singleton.mp h).symm)
  · rcases List.mem_append.mp h with h | h
    · exact .inl (.inr h)
    · exact .inr (.inr (List.mem_singleton.mp h).symm)

theorem Machine.Ok.enter (h : M.Ok P interpositionEnabled) {p : Prog LockResp Unit Unit}
    (hi : M.threads.workers i = none) (hp : Started P interpositionEnabled ∅ p) :
    Machine.Ok P interpositionEnabled
      ⟨.put (M.threads.live ∪ ∅) M.threads i ⟨∅, p, [], p⟩, M.entries, M.isReady⟩ where
  apart := h.apart.step (fun _ _ _ _ _ hj hcall => (h.pending hj hcall).1)
    (.spawn hi hp (Set.empty_disjoint _))
  possible := by
    intro j b hj
    rcases Pool.put_cases hj with ⟨-, rfl⟩ | ⟨-, hj⟩
    · exact Possible.nil
    · exact h.possible j b hj
  ready := by
    intro j b c hj hforced
    rcases Pool.put_cases hj with ⟨-, rfl⟩ | ⟨-, hj⟩
    · rcases hforced with hmem | hmem <;> cases hmem
    · exact h.ready j b c hj hforced
  idle := by
    intro j b c hj hheld
    rcases Pool.put_cases hj with ⟨-, rfl⟩ | ⟨-, hj⟩
    · cases hheld
    · exact h.idle j b c hj hheld
  entry := h.entry
  used := by
    intro x hx
    rw [Pool.put, Set.union_empty] at hx
    obtain ⟨j, b, hj, hheld⟩ := h.used x hx
    have hji : j ≠ i := by
      rintro rfl
      rw [hi] at hj
      cases hj
    exact ⟨j, b, by simpa [Pool.put, Function.update_of_ne hji] using hj, hheld⟩

/-- The registry gets an entry only behind a configuration, and none for stderr. -/
theorem Machine.Ok.entries (h : M.Ok P interpositionEnabled) {o : LockOp}
    {entries : Fd → Option Handle} (hord : Ordered a.trace o)
    (hi : M.threads.workers i = some a) (he : Entry o M.entries entries) {fd : Fd} {hd : Handle}
    (hfd : entries fd = some hd) : fd ≠ stderrFd ∧ readyAfter M.isReady o .config = true := by
  have hold : ∀ {fd hd}, M.entries fd = some hd →
      fd ≠ stderrFd ∧ readyAfter M.isReady o .config = true := by
    intro fd hd hfd
    obtain ⟨hne, hready⟩ := h.entry fd hd hfd
    exact ⟨hne, ready_readyAfter hready o⟩
  have hnew : ∀ {fd' : Fd} {hd' : Handle}, fd' ≠ stderrFd ∧ Forced a.trace .config →
      Function.update M.entries fd' (some hd') fd = some hd →
      fd ≠ stderrFd ∧ readyAfter M.isReady o .config = true := by
    intro fd' hd' hgood hfd
    by_cases hsame : fd = fd'
    · subst hsame
      exact ⟨hgood.1, ready_readyAfter (h.ready i a .config hi hgood.2) o⟩
    · rw [Function.update_of_ne hsame] at hfd
      exact hold hfd
  cases he with
  | insert hd' => exact hnew hord hfd
  | vacant hd' _ => exact hnew hord hfd
  | occupied _ => exact hold hfd
  | other _ => exact hold hfd
  | @remove _ nested fd' =>
    by_cases hsame : fd = fd'
    · subst hsame
      simp at hfd
    · rw [Function.update_of_ne hsame] at hfd
      exact hold hfd

theorem Machine.Ok.answer (h : M.Ok P interpositionEnabled) {o : LockOp}
    {k : LockResp o → Prog LockResp Unit Unit} {entries : Fd → Option Handle}
    (hi : M.threads.workers i = some a) (hcall : a.prog = .call () o k) (r : LockResp o)
    (hfree : Disjoint (locks.gains ⟨o, r⟩) (M.threads.live \ locks.drops o))
    (hr : M.Answers (a.holds locks) o r) (he : Entry o M.entries entries) :
    Machine.Ok P interpositionEnabled
      ⟨.put (locks.after M.threads.live ⟨o, r⟩) M.threads i
        { a with trace := a.trace ++ [⟨o, r⟩], prog := k r }, entries,
        readyAfter M.isReady o⟩ := by
  obtain ⟨huses, hord⟩ := h.pending hi hcall
  have hholds : Worker.holds locks { a with trace := a.trace ++ [⟨o, r⟩], prog := k r } =
      locks.after (a.holds locks) ⟨o, r⟩ := by simp [Worker.holds]
  constructor
  · exact h.apart.step (fun _ _ _ _ _ hj hj' => (h.pending hj hj').1) (.answer hi hcall r hfree)
  · intro j b hj
    rcases Pool.put_cases hj with ⟨-, rfl⟩ | ⟨-, hj⟩
    · refine possible_concat.mpr ⟨h.possible i a hi, ?_, h.credible hi hr⟩
      rw [← h.holds_eq hi]
      exact hfree.mono_right (Set.sdiff_subset_sdiff_left (h.apart.ok i a hi).live)
    · exact h.possible j b hj
  · intro j b c hj hforced
    rcases Pool.put_cases hj with ⟨-, rfl⟩ | ⟨-, hj⟩
    · rcases forced_concat hforced with hold | hnew | hnew
      · exact ready_readyAfter (h.ready i a c hi hold) o
      · cases hnew
        have hanswer : false = !M.isReady c := hr
        have hready : M.isReady c = true := by simpa using hanswer
        exact ready_readyAfter hready (.force c)
      · cases hnew
        simp [readyAfter]
    · exact ready_readyAfter (h.ready j b c hj hforced) o
  · intro j b c hj hheld
    rcases Pool.put_cases hj with ⟨-, rfl⟩ | ⟨hji, hother⟩
    · rw [hholds] at hheld
      rcases hheld with ⟨hold, hkept⟩ | hnew
      · have hne : o ≠ .ready c := by
          rintro rfl
          exact hkept rfl
        exact (readyAfter_eq hne).trans (h.idle i a c hi hold)
      · cases cell_mem_gains hnew
        have hanswer : true = !M.isReady c := hr
        have hnot : M.isReady c = false := by simpa using hanswer
        exact hnot
    · have hne : o ≠ .ready c := by
        rintro rfl
        have hdis := h.apart.disjoint i j a b (Ne.symm hji) hi hother
        exact Set.disjoint_left.mp hdis (huses rfl) hheld
      exact (readyAfter_eq hne).trans (h.idle j b c hother hheld)
  · intro fd hd hfd
    exact h.entries hord hi he hfd
  · intro x hx
    rcases hx with ⟨hold, hkept⟩ | hnew
    · obtain ⟨j, b, hj, hheld⟩ := h.used x hold
      by_cases hji : j = i
      · subst hji
        rw [hi] at hj
        cases hj
        refine ⟨j, _, Function.update_self .., ?_⟩
        rw [hholds]
        exact .inl ⟨hheld, hkept⟩
      · exact ⟨j, b, by simpa [Pool.put, Function.update_of_ne hji] using hj, hheld⟩
    · refine ⟨i, _, Function.update_self .., ?_⟩
      rw [hholds]
      exact .inr hnew

theorem Machine.Reachable.ok (h : M.Reachable P interpositionEnabled) :
    M.Ok P interpositionEnabled := by
  induction h with
  | start =>
    refine ⟨⟨?_, ?_⟩, ?_, ?_, ?_, ?_, ?_⟩
    · intro i a hi
      cases hi
    · intro i j a b _ hi
      cases hi
    · intro i a hi
      cases hi
    · intro i a c hi
      cases hi
    · intro i a c hi
      cases hi
    · intro fd hd hfd
      cases hfd
    · intro x hx
      cases hx
  | step _ hs ih =>
    cases hs with
    | enter hi hp => exact ih.enter hi hp
    | answer hi hcall r hfree hr he => exact ih.answer hi hcall r hfree hr he

end

/-! ### Waiting -/

/-- What a call has to wait for while somebody has it. A reader may have to wait for other
readers too, when a writer waits. -/
def LockOp.asks : LockOp → Set Token
  | .lock x => {.mutex x}
  | .force c => {.cell c}
  | .readLock | .writeLock => shares
  | _ => ∅

namespace Machine

def holds (M : Machine) (i : ℕ) : Set Token :=
  {x | ∃ a, M.threads.workers i = some a ∧ x ∈ a.holds locks}

/-- The thread `i` is at the call `o`. -/
def Pending (M : Machine) (i : ℕ) (o : LockOp) : Prop :=
  ∃ a s k, M.threads.workers i = some a ∧ a.prog = .call s o k

def asks (M : Machine) (i : ℕ) : Set Token := {x | ∃ o, M.Pending i o ∧ x ∈ o.asks}

/-- The thread `i` waits for `x`, which a thread has. -/
abbrev Waits (M : Machine) (i : ℕ) (x : Token) : Prop := Ownership.Waits M.holds M.asks i x

/-- The thread `i` waits for something that the thread `j` has. -/
abbrev Behind (M : Machine) (i j : ℕ) : Prop := Ownership.Behind M.holds M.asks i j

/-- The thread `i` was followed up to the bound of a loop. -/
def CutOff (M : Machine) (i : ℕ) : Prop :=
  ∃ a s, M.threads.workers i = some a ∧ a.prog = .cut s

end Machine

section
variable {P : Primitives} {interpositionEnabled : Bool} {M M' : Machine} {i : ℕ}

theorem Token.rank_le (x : Token) : x.rank ≤ (Token.share 0).rank := by
  cases x with
  | share n => exact le_refl _
  | cell c => cases c <;> decide
  | mutex m =>
    cases m with
    | session h => exact Nat.zero_le _
    | stderr => decide
    | registry => decide

/-- A thread that waits for `x` has only what comes before it. -/
theorem Machine.Ok.waits_above (h : M.Ok P interpositionEnabled) {x : Token} (hw : M.Waits i x) :
    ∀ y ∈ M.holds i, y.rank < x.rank := by
  rintro y ⟨a, hi, hy⟩
  obtain ⟨⟨o, ⟨a', s, k, hi', hcall⟩, hx⟩, j, b, hj, hxb⟩ := hw
  cases hi.symm.trans hi'
  have hord := (h.pending hi hcall).2
  rw [h.holds_eq hi] at hy
  cases o with
  | lock m =>
    cases hx
    exact hord y hy
  | force c =>
    cases hx
    rcases hord with hbelow | hforced
    · exact hbelow y hy
    · have hready := h.ready i a c hi hforced
      rw [h.idle j b c hj hxb] at hready
      cases hready
  | readLock | writeLock =>
    obtain ⟨n, rfl⟩ := hx
    exact hord y hy
  | _ => cases hx

/-- A thread waits outside of the process only with what comes before the registry. -/
theorem Machine.Ok.blocking_below (h : M.Ok P interpositionEnabled) {o : LockOp}
    (ho : M.Pending i o) (hb : o.blocking = true) :
    Below (Token.cell .registry).rank (M.holds i) := by
  rintro y ⟨a, hi, hy⟩
  obtain ⟨a', s, k, hi', hcall⟩ := ho
  cases hi.symm.trans hi'
  have hord := (h.pending hi hcall).2
  rw [h.holds_eq hi] at hy
  cases o with
  | hook nested o =>
    cases o with
    | real c => exact hord hb y hy
    | _ => cases hb
  | onSession hd o => exact hord hb y hy
  | openFile => exact hord hb y hy
  | _ => cases hb

theorem resp_nonempty (o : Op) : Nonempty (Resp o) := by
  cases o with
  | send buf flags => exact ⟨.zero⟩
  | recv flags => exact ⟨.eof⟩
  | getfl => exact ⟨none⟩
  | getpid => exact ⟨0⟩
  | configEpoch => exact ⟨0⟩
  | resolvePolicy => exact ⟨none⟩
  | resolveIdentity => exact ⟨.error .badIdentityConfig⟩
  | pqcControlAvailable => exact ⟨true⟩
  | resolveFallbackPsk => exact ⟨none⟩
  | ephemeral => exact ⟨⟨.replicate 32 0, []⟩⟩
  | freshNonce => exact ⟨.replicate 16 0⟩
  | note n => exact ⟨()⟩

/-- To every call there is an answer that takes no more than was asked for. -/
theorem Machine.exists_answer (M : Machine) (H : Set Token) (o : LockOp) :
    ∃ r, locks.gains ⟨o, r⟩ ⊆ o.asks ∧ M.Answers H o r := by
  cases o with
  | lock x => exact ⟨(), subset_rfl, trivial⟩
  | unlock | release | ready | readUnlock | writeUnlock =>
    exact ⟨(), Set.empty_subset _, trivial⟩
  | tryLock hd => exact ⟨false, Set.empty_subset _, trivial⟩
  | force c =>
    refine ⟨!M.isReady c, ?_, rfl⟩
    cases M.isReady c with
    | true => exact Set.empty_subset _
    | false => exact subset_rfl
  | readLock => exact ⟨0, Set.singleton_subset_iff.mpr ⟨0, rfl⟩, trivial⟩
  | writeLock => exact ⟨(), subset_rfl, trivial⟩
  | sessionState hd =>
    exact ⟨⟨.failed, 0, .nistStandard768, 0, [], [], [], false⟩, Set.empty_subset _, trivial⟩
  | onSession hd o =>
    obtain ⟨r⟩ := resp_nonempty o
    exact ⟨r, Set.empty_subset _, trivial⟩
  | handles => exact ⟨[], Set.empty_subset _, trivial⟩
  | openFile => exact ⟨none, Set.empty_subset _, trivial⟩
  | spawn => exact ⟨true, Set.empty_subset _, rfl⟩
  | choice => exact ⟨true, Set.empty_subset _, trivial⟩
  | hook nested o =>
    cases o with
    | containsKey fd => exact ⟨(M.entries fd).isSome, Set.empty_subset _, rfl⟩
    | lookup fd => exact ⟨M.entries fd, Set.empty_subset _, rfl⟩
    | soType fd => exact ⟨none, Set.empty_subset _, fun h => by cases h⟩
    | query o =>
      obtain ⟨r⟩ := resp_nonempty o
      exact ⟨r, Set.empty_subset _, trivial⟩
    | insert | orInsert | remove | blockedBypassAttempt =>
      exact ⟨(), Set.empty_subset _, trivial⟩
    | overlaySend | overlayRecv => exact ⟨.error 0, Set.empty_subset _, trivial⟩
    | real c =>
      have hfailed : ¬ RealRet.Starts ⟨-1, 0⟩ := by decide
      refine ⟨⟨-1, 0⟩, Set.empty_subset _, ?_⟩
      cases c with
      | connect fd => exact fun hstarts => absurd hstarts hfailed
      | _ => trivial

theorem exists_entry (o : LockOp) (m : Fd → Option Handle) : ∃ m', Entry o m m' := by
  cases ho : o.changesEntries with
  | false => exact ⟨m, .other ho⟩
  | true =>
    cases o with
    | hook nested o =>
      cases o with
      | insert fd st => exact ⟨_, .insert 0⟩
      | orInsert fd st =>
        by_cases hfd : m fd = none
        · exact ⟨_, .vacant 0 hfd⟩
        · exact ⟨_, .occupied hfd⟩
      | remove fd => exact ⟨_, .remove⟩
      | _ => cases ho
    | _ => cases ho

/-- A thread that waits for nothing goes on. -/
theorem Machine.Ok.advances (h : M.Ok P interpositionEnabled) {o : LockOp}
    (ho : M.Pending i o) (hw : ∀ x, ¬ M.Waits i x) :
    ∃ M', M.Step P interpositionEnabled i M' := by
  obtain ⟨a, s, k, hi, hcall⟩ := ho
  obtain ⟨r, hgains, hr⟩ := M.exists_answer (a.holds locks) o
  obtain ⟨entries, he⟩ := exists_entry o M.entries
  have hfree : Disjoint (locks.gains ⟨o, r⟩) (M.threads.live \ locks.drops o) := by
    apply Set.disjoint_left.mpr
    intro x hx hlive
    obtain ⟨j, b, hj, hheld⟩ := h.used x hlive.1
    exact hw x ⟨⟨o, ⟨a, s, k, hi, hcall⟩, hgains hx⟩, j, b, hj, hheld⟩
  exact ⟨_, .answer hi hcall r hfree hr he⟩

/-- What a thread has, it has inside of a call. -/
theorem Machine.Ok.inside (h : M.Ok P interpositionEnabled) {x : Token} (hx : x ∈ M.holds i) :
    M.CutOff i ∨ ∃ o, M.Pending i o := by
  obtain ⟨a, hi, hheld⟩ := hx
  have hsafe := h.safe hi
  cases hprog : a.prog with
  | cut s => exact .inl ⟨a, s, hi, hprog⟩
  | call s o k => exact .inr ⟨o, a, s, k, hi, hprog⟩
  | done s u =>
    rw [hprog] at hsafe
    have hnothing := hsafe.2 (h.possible i a hi)
    rw [h.holds_eq hi, hnothing] at hheld
    cases hheld

/-- Two threads close descriptors; one has locked the registry, the other waits for it. -/
theorem Machine.twoCloses : ∃ M : Machine, M.Reachable specimen true ∧
    M.Waits 1 (.mutex .registry) := by
  have hstart : Machine.Reachable specimen true _ :=
    .step .start (.enter (i := 0) rfl ⟨rfl, 0, 0, .hook (.close 5), rfl⟩)
  have hfirst := hstart.step (.answer (o := .force .registry) (Function.update_self ..) rfl true
    (by simp [start, Pool.put]) rfl (.other rfl))
  have hspawn := hfirst.step (.answer (o := .spawn) (Function.update_self ..) rfl true
    (by simp [locks]) rfl (.other rfl))
  have hready := hspawn.step (.answer (o := .ready .registry) (Function.update_self ..) rfl ()
    (by simp [locks]) trivial (.other rfl))
  have hlock := hready.step (.answer (o := .lock .registry) (Function.update_self ..) rfl ()
    (by simp [locks, Discipline.after, Pool.put, start]) trivial (.other rfl))
  have hsecond := hlock.step (.enter (i := 1) rfl ⟨rfl, 0, 0, .hook (.close 6), rfl⟩)
  have hfound := hsecond.step (.answer (o := .force .registry) (Function.update_self ..) rfl false
    (by simp [locks]) rfl (.other rfl))
  refine ⟨_, hfound, ⟨.lock .registry, ⟨_, _, _, rfl, rfl⟩, rfl⟩, 0, _, rfl, ?_⟩
  simp [Worker.holds, locks, Discipline.after]

/-- The locks of the library do not deadlock. No thread waits for itself by way of others, and
who waits is led to a thread that waits for none and goes on. If it is the mutex of the registry
or the `RwLock` of the configuration that is waited for, that thread is not in a call that waits
for something outside of the process either. -/
theorem Machine.no_deadlock (h : M.Reachable P interpositionEnabled) {x : Token}
    (hw : M.Waits i x) :
    ¬ Relation.TransGen M.Behind i i ∧ ∃ j, Relation.TransGen M.Behind i j ∧
      (∀ y, ¬ M.Waits j y) ∧ (M.CutOff j ∨ ∃ M', M.Step P interpositionEnabled j M') ∧
      ((Token.mutex .registry).rank ≤ x.rank → ∀ o, M.Pending j o → o.blocking = false) := by
  have hok := h.ok
  have hup : ∀ i x, M.Waits i x → ∀ y ∈ M.holds i, y.rank < x.rank :=
    fun i x hx => hok.waits_above hx
  obtain ⟨j, y, hij, hy, hle, hfree⟩ := hw.exists_free Token.rank hup Token.rank_le
  refine ⟨Behind.acyclic Token.rank hup i, j, hij, hfree, ?_, ?_⟩
  · rcases hok.inside hy with hcut | ⟨o, ho⟩
    · exact .inl hcut
    · exact .inr (hok.advances ho hfree)
  · intro hreg o ho
    cases hb : o.blocking with
    | false => rfl
    | true =>
      have hbelow := hok.blocking_below ho hb y hy
      have hlow : (Token.cell .registry).rank < (Token.mutex .registry).rank := by decide
      omega

theorem Machine.no_deadlock_twoCloses : ∃ M : Machine, M.Reachable specimen true ∧
    M.Waits 1 (.mutex .registry) ∧ ¬ Relation.TransGen M.Behind 1 1 ∧
    ∃ j, Relation.TransGen M.Behind 1 j ∧ (∀ y, ¬ M.Waits j y) ∧
      (M.CutOff j ∨ ∃ M', M.Step specimen true j M') ∧
      ((Token.mutex .registry).rank ≤ (Token.mutex .registry).rank →
        ∀ o, M.Pending j o → o.blocking = false) := by
  obtain ⟨M, hM, hw⟩ := Machine.twoCloses
  exact ⟨M, hM, hw, Machine.no_deadlock hM hw⟩

/-! ### What the assumptions are for -/

/-- If the reload thread cannot be started, the first hook comes to wait for the cell that it is
about to initialise: the message goes through a hook. -/
theorem spawn_failed_waits (P : Primitives) (fuel depth : ℕ) (fd : Fd) :
    ∃ t k, At (ThreadCall.run P (fuel + 1) true (depth + 1) (.hook (.close fd)) ()) t
        (.call () (.force .registry) k) ∧
      Token.cell .registry ∈ locks.held ∅ t := by
  refine ⟨[⟨.force .registry, true⟩, ⟨.spawn, false⟩, ⟨.lock .stderr, ()⟩], _,
    .head (.head (.head .refl)), ?_⟩
  simp [locks, Discipline.after]

/-- If stderr is a tracked socket, an alert is sent through its session `h'`: with the session
that raised the alert still locked, which can be the same. -/
theorem alert_waits (P : Primitives) (fuel depth : ℕ) (h h' : Handle) (s : FdState)
    (detail : String) {α : Type} (next : Unit → Prog Resp FdState α) :
    ∃ u k, At (inSession (fuel + 1) (interposed P (fuel + 1) true (depth + 1)) h
        (.call s (.note (.downgradeAttack detail)) next)) u (.call () (.lock (.session h')) k) ∧
      ∀ H, Token.mutex (.session h) ∈ H → Token.mutex (.session h) ∈ locks.held H u := by
  refine ⟨[⟨.lock .stderr, ()⟩, ⟨.force .registry, false⟩, ⟨.lock .registry, ()⟩,
    ⟨.hook true (.containsKey stderrFd), true⟩, ⟨.unlock .registry, ()⟩,
    ⟨.force .registry, false⟩, ⟨.lock .registry, ()⟩,
    ⟨.hook true (.lookup stderrFd), some h'⟩, ⟨.unlock .registry, ()⟩], _,
    .head (.head (.head (.head (.head (.head (.head (.head (.head .refl)))))))), ?_⟩
  intro H hH
  simp [locks, Discipline.after, hH]

end

end Locking
end SyntriassOverlay

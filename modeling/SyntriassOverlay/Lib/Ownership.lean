import SyntriassOverlay.Lib.Resumption
import Mathlib.Data.Set.Lattice
import Mathlib.Order.CompletePartialOrder

/-!
# Ownership: programs that share a table of resources

Resources are named by numbers that are used again once a resource is gone, so two programs
may come to name the same one. A discipline says of every call which resources it names, which
it gives back and which its answer brings. A program that names only what it holds, when it is
run alone, does so next to any number of others, as long as the environment brings only what
does not exist: no two of them ever hold the same resource.
-/

namespace Ownership
open Resumption

variable {Op : Type} {Resp : Op → Type} {ρ σ α β : Type}

structure Discipline (Resp : Op → Type) (ρ : Type) where
  uses : Op → Set ρ
  drops : Op → Set ρ
  gains : Ev Resp → Set ρ
  drops_used : ∀ o, drops o ⊆ uses o

namespace Discipline
variable (D : Discipline Resp ρ)

/-- What is held after one call. -/
def after (H : Set ρ) (e : Ev Resp) : Set ρ := (H \ D.drops e.op) ∪ D.gains e

/-- What a program that started with `own` holds after the calls `t`. -/
def held (own : Set ρ) (t : Trace Resp) : Set ρ := t.foldl D.after own

@[simp] theorem held_nil (own : Set ρ) : D.held own [] = own := rfl

@[simp] theorem held_append (own : Set ρ) (t u : Trace Resp) :
    D.held own (t ++ u) = D.held (D.held own t) u := List.foldl_append

@[simp] theorem held_cons (own : Set ρ) (e : Ev Resp) (t : Trace Resp) :
    D.held own (e :: t) = D.held (D.after own e) t := rfl

variable {D} in
theorem held_concat {own : Set ρ} {t : Trace Resp} {e : Ev Resp} (hgains : D.gains e = ∅) :
    D.held own (t ++ [e]) = D.held own t \ D.drops e.op := by
  rw [held_append, held_cons, held_nil, after, hgains, Set.union_empty]

variable {D} in
theorem held_concat_quiet {own : Set ρ} {t : Trace Resp} {e : Ev Resp} (hgains : D.gains e = ∅)
    (hdrops : D.drops e.op = ∅) : D.held own (t ++ [e]) = D.held own t := by
  rw [held_concat hgains, hdrops, Set.sdiff_empty]

/-- The answers have brought only what was not held. -/
def Fresh (own : Set ρ) : Trace Resp → Prop
  | [] => True
  | e :: t => Disjoint (D.gains e) (own \ D.drops e.op) ∧ Fresh (D.after own e) t

/-- To name only what is held, as long as the answers bring only what is not, and to come to
an end. -/
def owner (own : Set ρ) : Obligation Resp σ where
  call t _ o := D.Fresh own t → D.uses o ⊆ D.held own t
  cut _ _ := False

/-- To name only resources of `S`, to give none back and to get none. -/
def steady (S : Set ρ) : Obligation Resp σ where
  call _ _ o := D.uses o ⊆ S ∧ D.drops o = ∅ ∧ ∀ r, D.gains ⟨o, r⟩ = ∅
  cut _ _ := True

/-- An action that leaves the holdings alone. -/
def Steady (S : Set ρ) (m : Act Resp σ α) : Prop :=
  ∀ s t, Safe (D.steady S) (fun _ _ _ => True) (m s) t

variable {D}

theorem fresh_append {own : Set ρ} {t u : Trace Resp} :
    D.Fresh own (t ++ u) ↔ D.Fresh own t ∧ D.Fresh (D.held own t) u := by
  induction t generalizing own with
  | nil => simp [Fresh]
  | cons e t ih => simp [Fresh, ih, and_assoc]

theorem steady_pure {S : Set ρ} (a : α) : D.Steady S (pure a : Act Resp σ α) :=
  fun _ _ => trivial

theorem steady_perform {S : Set ρ} {o : Op} (huses : D.uses o ⊆ S) (hdrops : D.drops o = ∅)
    (hgains : ∀ r, D.gains ⟨o, r⟩ = ∅) : D.Steady S (perform o : Act Resp σ (Resp o)) :=
  fun _ _ => ⟨⟨huses, hdrops, hgains⟩, fun _ => trivial⟩

theorem steady_bind {S : Set ρ} {m : Act Resp σ α} {f : α → Act Resp σ β} (hm : D.Steady S m)
    (hf : ∀ a, D.Steady S (f a)) : D.Steady S (m >>= f) :=
  fun s t => safe_bind (safe_mono (fun t' s' a _ => hf a s' t') (hm s t))

theorem steady_iter {S : Set ρ} {body : β → Act Resp σ (β ⊕ α)} (hbody : ∀ b, D.Steady S (body b))
    (fuel : ℕ) (b : β) : D.Steady S (iter body fuel b) := by
  induction fuel generalizing b with
  | zero => exact fun _ _ => trivial
  | succ fuel ih =>
    apply steady_bind (hbody b)
    intro next
    cases next with
    | inl b' => exact ih b'
    | inr a => exact steady_pure a

/-- After a steady part of a program that comes to an end the same is held as before. -/
theorem safe_steady {S own : Set ρ} {inv : Obligation Resp σ} {Q R : Trace Resp → σ → α → Prop}
    {t : Trace Resp} (hS : D.Fresh own t → S ⊆ D.held own t) (hcut : ∀ u s, ¬ inv.cut u s)
    (hQ : ∀ u s a, D.held own (t ++ u) = D.held own t → Q u s a → R (t ++ u) s a)
    {p : Prog Resp σ α} (hsteady : Safe (D.steady S) (fun _ _ _ => True) p [])
    (h : Safe inv Q p []) : Safe (D.owner own) R p t := by
  suffices hsafe : ∀ u, D.held own (t ++ u) = D.held own t →
      Safe (D.steady S) (fun _ _ _ => True) p u → Safe inv Q p u →
      Safe (D.owner own) R p (t ++ u) by
    simpa using hsafe [] (by simp) hsteady h
  clear h hsteady
  induction p with
  | done s a =>
    intro u hu _ hq
    exact hQ u s a hu hq
  | cut s =>
    intro u _ _ h
    exact hcut u s h
  | call s o k ih =>
    intro u hu hsteady hq
    obtain ⟨⟨huses, hdrops, hgains⟩, hrest⟩ := hsteady
    constructor
    · intro hfresh
      rw [hu]
      exact huses.trans (hS (fresh_append.mp hfresh).1)
    · intro r
      have hkeep : D.held own (t ++ (u ++ [⟨o, r⟩])) = D.held own t := by
        rw [← List.append_assoc, held_concat_quiet (hgains r) hdrops, hu]
      rw [List.append_assoc]
      exact ih r _ hkeep (hrest r) (hq.2 r)

end Discipline

/-! ### Any number of programs at once -/

structure Worker (Resp : Op → Type) (ρ σ α : Type) where
  own : Set ρ
  start : Prog Resp σ α
  trace : Trace Resp
  prog : Prog Resp σ α

/-- What the worker holds now. -/
def Worker.holds (D : Discipline Resp ρ) (w : Worker Resp ρ σ α) : Set ρ := D.held w.own w.trace

structure Pool (Resp : Op → Type) (ρ σ α : Type) where
  live : Set ρ
  workers : ℕ → Option (Worker Resp ρ σ α)

def Pool.put (live : Set ρ) (w : Pool Resp ρ σ α) (i : ℕ) (a : Worker Resp ρ σ α) :
    Pool Resp ρ σ α :=
  ⟨live, Function.update w.workers i (some a)⟩

/-- A worker starts with resources that did not exist, or a call is answered. The answer brings
resources that do not exist once the call has given back its own. -/
inductive Pool.Step (D : Discipline Resp ρ) (spawns : Set ρ → Prog Resp σ α → Prop)
    (w : Pool Resp ρ σ α) : Pool Resp ρ σ α → Prop
  | spawn {i : ℕ} {own : Set ρ} {p : Prog Resp σ α} (hi : w.workers i = none) (hp : spawns own p)
      (hfresh : Disjoint own w.live) : Step D spawns w (.put (w.live ∪ own) w i ⟨own, p, [], p⟩)
  | answer {i : ℕ} {a : Worker Resp ρ σ α} {s : σ} {o : Op} {k : Resp o → Prog Resp σ α}
      (hi : w.workers i = some a) (hcall : a.prog = .call s o k) (r : Resp o)
      (hfresh : Disjoint (D.gains ⟨o, r⟩) (w.live \ D.drops o)) :
      Step D spawns w (.put (D.after w.live ⟨o, r⟩) w i
        { a with trace := a.trace ++ [⟨o, r⟩], prog := k r })

inductive Pool.Reachable (D : Discipline Resp ρ) (spawns : Set ρ → Prog Resp σ α → Prop)
    (live : Set ρ) : Pool Resp ρ σ α → Prop
  | start : Reachable D spawns live ⟨live, fun _ => none⟩
  | step {w w' : Pool Resp ρ σ α} : Reachable D spawns live w → Pool.Step D spawns w w' →
      Reachable D spawns live w'

/-- A worker runs a program it was started with, it has got only what it did not hold, and all
that it holds exists. -/
structure Worker.Ok (D : Discipline Resp ρ) (spawns : Set ρ → Prog Resp σ α → Prop)
    (live : Set ρ) (a : Worker Resp ρ σ α) : Prop where
  spawned : spawns a.own a.start
  ran : At a.start a.trace a.prog
  fresh : D.Fresh a.own a.trace
  live : a.holds D ⊆ live

/-- Nobody holds what another holds. -/
structure Pool.Apart (D : Discipline Resp ρ) (spawns : Set ρ → Prog Resp σ α → Prop)
    (w : Pool Resp ρ σ α) : Prop where
  ok : ∀ i a, w.workers i = some a → a.Ok D spawns w.live
  disjoint : ∀ i j a b, i ≠ j → w.workers i = some a → w.workers j = some b →
    Disjoint (a.holds D) (b.holds D)

section
variable {D : Discipline Resp ρ} {spawns : Set ρ → Prog Resp σ α → Prop}
  {w w' : Pool Resp ρ σ α} {live : Set ρ} {Q : Set ρ → Trace Resp → σ → α → Prop}

theorem Pool.put_cases {i j : ℕ} {a b : Worker Resp ρ σ α}
    (hj : (Pool.put live w i a).workers j = some b) :
    j = i ∧ b = a ∨ j ≠ i ∧ w.workers j = some b := by
  by_cases hji : j = i
  · subst hji
    have hself : some a = some b := by simpa [Pool.put] using hj
    exact .inl ⟨rfl, (Option.some.inj hself).symm⟩
  · refine .inr ⟨hji, ?_⟩
    simpa [Pool.put, Function.update_of_ne hji] using hj

/-- One worker changes, and with it what exists. -/
theorem Pool.Apart.put (h : w.Apart D spawns) {i : ℕ} {a : Worker Resp ρ σ α}
    (ha : a.Ok D spawns live)
    (hothers : ∀ j b, j ≠ i → w.workers j = some b → b.holds D ⊆ live ∧
      Disjoint (a.holds D) (b.holds D)) : (Pool.put live w i a).Apart D spawns := by
  constructor
  · intro j b hj
    rcases Pool.put_cases hj with ⟨-, rfl⟩ | ⟨hne, hold⟩
    · exact ha
    · have hb := h.ok j b hold
      exact ⟨hb.spawned, hb.ran, hb.fresh, (hothers j b hne hold).1⟩
  · intro j l b c hjl hj hl
    rcases Pool.put_cases hj with ⟨rfl, rfl⟩ | ⟨hji, hb⟩
    · rcases Pool.put_cases hl with ⟨rfl, -⟩ | ⟨hli, hc⟩
      · exact absurd rfl hjl
      · exact (hothers l c hli hc).2
    · rcases Pool.put_cases hl with ⟨rfl, rfl⟩ | ⟨-, hc⟩
      · exact (hothers j b hji hb).2.symm
      · exact h.disjoint j l b c hjl hb hc

/-- What a pending call names, its worker holds. -/
theorem Worker.Ok.owns
    (hsafe : ∀ own p, spawns own p → Safe (D.owner own) (Q own) p [])
    {a : Worker Resp ρ σ α} (h : a.Ok D spawns live) {s : σ} {o : Op}
    {k : Resp o → Prog Resp σ α} (hcall : a.prog = .call s o k) : D.uses o ⊆ a.holds D := by
  have hnode := safe_at (hsafe _ _ h.spawned) (hcall ▸ h.ran)
  exact hnode.1 h.fresh

/-- A call that names only what its worker holds takes nothing from the others. -/
theorem Pool.Apart.step (h : w.Apart D spawns)
    (huses : ∀ i a s o k, w.workers i = some a → a.prog = .call s o k → D.uses o ⊆ a.holds D)
    (hs : Pool.Step D spawns w w') : w'.Apart D spawns := by
  cases hs with
  | @spawn i own p hi hp hfresh =>
    apply h.put
    · exact ⟨hp, .refl, trivial, Set.subset_union_right⟩
    · intro j b _ hj
      have hb := (h.ok j b hj).live
      exact ⟨hb.trans Set.subset_union_left, hfresh.mono_right hb⟩
  | @answer i a s o k hi hcall r hfresh =>
    have ha := h.ok i a hi
    have hat : At a.start a.trace (.call s o k) := hcall ▸ ha.ran
    have hdrops : D.drops o ⊆ a.holds D := (D.drops_used o).trans (huses i a s o k hi hcall)
    have hholds : Worker.holds D { a with trace := a.trace ++ [⟨o, r⟩], prog := k r } =
        D.after (a.holds D) ⟨o, r⟩ := by
      simp [Worker.holds]
    apply h.put
    · refine ⟨ha.spawned, hat.step r, Discipline.fresh_append.mpr ⟨ha.fresh, ?_, trivial⟩, ?_⟩
      · exact hfresh.mono_right (Set.sdiff_subset_sdiff_left ha.live)
      rw [hholds]
      exact Set.union_subset_union_left _ (Set.sdiff_subset_sdiff_left ha.live)
    · intro j b hne hj
      have hdis := h.disjoint i j a b (Ne.symm hne) hi hj
      have hb := (h.ok j b hj).live
      -- the call gives back nothing of `b`, and the answer brings nothing of it
      have hkept : b.holds D ⊆ w.live \ D.drops o :=
        Set.subset_sdiff.mpr ⟨hb, (hdis.mono_left hdrops).symm⟩
      refine ⟨hkept.trans Set.subset_union_left, ?_⟩
      rw [hholds]
      exact Set.disjoint_union_left.mpr
        ⟨hdis.mono_left Set.sdiff_subset, hfresh.mono_right hkept⟩

/-- A worker runs on while the others wait. -/
theorem Pool.Reachable.run (h : Pool.Reachable D spawns live w) {i : ℕ}
    {a : Worker Resp ρ σ α} (hi : w.workers i = some a) {u : Trace Resp} {q : Prog Resp σ α}
    (hat : At a.prog u q) (hfresh : D.Fresh w.live u) :
    Pool.Reachable D spawns live
      (.put (D.held w.live u) w i { a with trace := a.trace ++ u, prog := q }) := by
  induction hat with
  | refl =>
    have hsame : Pool.put w.live w i { a with trace := a.trace ++ [], prog := a.prog } = w := by
      rw [Pool.put, List.append_nil, ← hi, Function.update_eq_self]
    rwa [Discipline.held_nil, hsame]
  | @step u s o k _ r ih =>
    obtain ⟨hfresh, hnew, -⟩ := Discipline.fresh_append.mp hfresh
    have hnext : Pool.Step D spawns (.put (D.held w.live u) w i
        { a with trace := a.trace ++ u, prog := .call s o k }) _ :=
      .answer (Function.update_self ..) rfl r hnew
    have hput : D.held w.live (u ++ [⟨o, r⟩]) = D.after (D.held w.live u) ⟨o, r⟩ := by simp
    have hstep := (ih hfresh).step hnext
    simpa [Pool.put, hput] using hstep

/-- A worker starts and runs on while the others wait. -/
theorem Pool.Reachable.spawn_run (h : Pool.Reachable D spawns live w) {i : ℕ} {own : Set ρ}
    {p q : Prog Resp σ α} (hi : w.workers i = none) (hp : spawns own p)
    (hown : Disjoint own w.live) {u : Trace Resp} (hat : At p u q)
    (hfresh : D.Fresh (w.live ∪ own) u) :
    Pool.Reachable D spawns live (.put (D.held (w.live ∪ own) u) w i ⟨own, p, u, q⟩) := by
  have hrun := (h.step (.spawn hi hp hown)).run (Function.update_self ..) hat hfresh
  simpa [Pool.put] using hrun

theorem Pool.Reachable.apart
    (hsafe : ∀ own p, spawns own p → Safe (D.owner own) (Q own) p [])
    (h : Pool.Reachable D spawns live w) : w.Apart D spawns := by
  induction h with
  | start => exact ⟨nofun, nofun⟩
  | step _ hs ih =>
    exact ih.step (fun i a _ _ _ hi hcall => (ih.ok i a hi).owns hsafe hcall) hs

end

/-! ### Waiting for what others hold -/

section
variable {ι : Type} (holds wants : ι → Set ρ)

def Waits (i : ι) (x : ρ) : Prop := x ∈ wants i ∧ ∃ j, x ∈ holds j

/-- `i` waits for something that `j` has. -/
def Behind (i j : ι) : Prop := ∃ x ∈ wants i, x ∈ holds j

variable {holds wants} (rank : ρ → ℕ)
  (hup : ∀ i x, Waits holds wants i x → ∀ y ∈ holds i, rank y < rank x)
include hup

/-- Along those who wait for each other the rank grows. -/
theorem Behind.grows {i j : ι} (h : Relation.TransGen (Behind holds wants) i j) :
    ∃ x y, Waits holds wants i x ∧ y ∈ holds j ∧ rank x ≤ rank y := by
  induction h with
  | single h =>
    obtain ⟨x, hx, hj⟩ := h
    exact ⟨x, x, ⟨hx, _, hj⟩, hj, le_refl _⟩
  | tail _ h ih =>
    obtain ⟨x, y, hx, hy, hle⟩ := ih
    obtain ⟨z, hz, hj⟩ := h
    have hlt := hup _ z ⟨hz, _, hj⟩ y hy
    exact ⟨x, z, hx, hj, by omega⟩

/-- If everyone waits only for what ranks above all that they hold, nobody waits for themself
by way of others. -/
theorem Behind.acyclic (i : ι) : ¬ Relation.TransGen (Behind holds wants) i i := by
  intro h
  obtain ⟨x, y, hx, hy, hle⟩ := Behind.grows rank hup h
  have hlt := hup i x hx y hy
  omega

/-- The way from one who waits leads to one who waits for nothing. -/
theorem Waits.exists_free {top : ℕ} (htop : ∀ x, rank x ≤ top) {i : ι} {x : ρ}
    (hw : Waits holds wants i x) :
    ∃ j y, Relation.TransGen (Behind holds wants) i j ∧ y ∈ holds j ∧ rank x ≤ rank y ∧
      ∀ z, ¬ Waits holds wants j z := by
  induction hn : top - rank x using Nat.strong_induction_on generalizing i x with
  | _ n ih =>
    obtain ⟨j, hj⟩ := hw.2
    have hij : Behind holds wants i j := ⟨x, hw.1, hj⟩
    by_cases hfree : ∃ z, Waits holds wants j z
    · obtain ⟨z, hz⟩ := hfree
      have hlt := hup j z hz x hj
      have hz_top := htop z
      obtain ⟨l, y, hjl, hl, hle, hrest⟩ := ih (top - rank z) (by omega) hz rfl
      exact ⟨l, y, .head hij hjl, hl, by omega, hrest⟩
    · exact ⟨j, x, .single hij, hj, le_refl _, fun z hz => hfree ⟨z, hz⟩⟩

end

end Ownership

import Mathlib.Data.List.Basic
import Mathlib.Tactic.Common

/-!
# Resumptions: stateful programs that wait for answers of their environment

A program over a state `σ` is a tree. It is finished, it waits at a call for
whatever the environment answers, or it was cut off at a loop bound. The state
the program holds is visible at every node, so that what is true *while* a call
is pending can be stated, not only what is true at the end. A trace is the list
of calls with their answers. Loops carry an explicit bound; a statement about a
looping program is made for every bound.
-/

namespace Resumption

variable {Op : Type} {Resp : Op → Type} {σ τ α β γ : Type}

/-- One call of a program together with the answer it got. -/
structure Ev (Resp : Op → Type) where
  op : Op
  resp : Resp op

abbrev Trace (Resp : Op → Type) := List (Ev Resp)

inductive Prog (Resp : Op → Type) (σ α : Type) where
  | done (s : σ) (a : α)
  | call (s : σ) (o : Op) (k : Resp o → Prog Resp σ α)
  | cut (s : σ)

/-- The state a program holds at its present node. -/
def Prog.state : Prog Resp σ α → σ
  | .done s _ => s
  | .call s _ _ => s
  | .cut s => s

/-- A stateful action: from the state it is entered with to the program it runs. -/
def Act (Resp : Op → Type) (σ α : Type) := σ → Prog Resp σ α

def Prog.bind : Prog Resp σ α → (α → Act Resp σ β) → Prog Resp σ β
  | .done s a, f => f a s
  | .call s o k, f => .call s o fun r => (k r).bind f
  | .cut s, _ => .cut s

instance : Monad (Act Resp σ) where
  pure a := fun s => .done s a
  bind m f := fun s => (m s).bind f

/-- Make one call; the state is kept while the call is pending. -/
def perform (o : Op) : Act Resp σ (Resp o) := fun s => .call s o fun r => .done s r

def get : Act Resp σ σ := fun s => .done s s
def set (s : σ) : Act Resp σ Unit := fun _ => .done s ()
def modify (f : σ → σ) : Act Resp σ Unit := fun s => .done (f s) ()

/-- A loop whose body either goes round with a new loop value or leaves with a
result; `n` bounds the number of rounds. -/
def iter (body : β → Act Resp σ (β ⊕ α)) : ℕ → β → Act Resp σ α
  | 0, _ => fun s => .cut s
  | n + 1, b => do
    match ← body b with
    | .inl b' => iter body n b'
    | .inr a => pure a

@[simp] theorem pure_apply (a : α) (s : σ) : (pure a : Act Resp σ α) s = .done s a := rfl

@[simp] theorem bind_apply (m : Act Resp σ α) (f : α → Act Resp σ β) (s : σ) :
    (m >>= f) s = (m s).bind f := rfl

@[simp] theorem perform_apply (o : Op) (s : σ) :
    (perform o : Act Resp σ (Resp o)) s = .call s o fun r => .done s r := rfl

@[simp] theorem get_apply (s : σ) : (get : Act Resp σ σ) s = .done s s := rfl
@[simp] theorem set_apply (s s' : σ) : (set s' : Act Resp σ Unit) s = .done s' () := rfl
@[simp] theorem modify_apply (f : σ → σ) (s : σ) :
    (modify f : Act Resp σ Unit) s = .done (f s) () := rfl

@[simp] theorem bind_done (s : σ) (a : α) (f : α → Act Resp σ β) :
    (Prog.done s a : Prog Resp σ α).bind f = f a s := rfl

@[simp] theorem bind_call (s : σ) (o : Op) (k : Resp o → Prog Resp σ α) (f : α → Act Resp σ β) :
    (Prog.call s o k).bind f = .call s o fun r => (k r).bind f := rfl

@[simp] theorem bind_cut (s : σ) (f : α → Act Resp σ β) :
    (Prog.cut s : Prog Resp σ α).bind f = .cut s := rfl

/-! ### Nodes reached along a trace -/

/-- `At p t q`: answering the calls of `p` as in `t` leads to the node `q`. -/
inductive At (p : Prog Resp σ α) : Trace Resp → Prog Resp σ α → Prop
  | refl : At p [] p
  | step {t : Trace Resp} {s : σ} {o : Op} {k : Resp o → Prog Resp σ α} :
      At p t (.call s o k) → (r : Resp o) → At p (t ++ [⟨o, r⟩]) (k r)

theorem At.trans {p q r : Prog Resp σ α} {t u : Trace Resp} (h : At p t q) (h' : At q u r) :
    At p (t ++ u) r := by
  induction h' with
  | refl => simpa using h
  | step _ r ih =>
    rw [← List.append_assoc]
    exact At.step ih r

theorem At.head {s : σ} {o : Op} {k : Resp o → Prog Resp σ α} {q : Prog Resp σ α}
    {t : Trace Resp} {r : Resp o} (h : At (k r) t q) : At (.call s o k) (⟨o, r⟩ :: t) q :=
  (At.step .refl r).trans h

theorem At.bind {p q : Prog Resp σ α} {t : Trace Resp} (h : At p t q) (f : α → Act Resp σ β) :
    At (p.bind f) t (q.bind f) := by
  induction h with
  | refl => exact .refl
  | step _ r ih => exact ih.step r

/-- A program is led to one node by a trace. -/
theorem At.functional {p q q' : Prog Resp σ α} {t : Trace Resp} (h : At p t q) (h' : At p t q') :
    q = q' := by
  induction h generalizing q' with
  | refl =>
    generalize ht : ([] : Trace Resp) = t at h'
    cases h' with
    | refl => rfl
    | step => simp at ht
  | @step t s o k _ r ih =>
    generalize ht : t ++ [(⟨o, r⟩ : Ev Resp)] = t' at h'
    cases h' with
    | refl => simp at ht
    | @step t₁ s₁ o₁ k₁ h₁ r₁ =>
      obtain ⟨rfl, he⟩ := List.append_inj' ht rfl
      cases he
      cases ih h₁
      rfl

theorem At.split {p q : Prog Resp σ α} {t u : Trace Resp} (h : At p (t ++ u) q) :
    ∃ m, At p t m ∧ At m u q := by
  generalize ht : t ++ u = t' at h
  induction h generalizing u with
  | refl =>
    obtain ⟨rfl, rfl⟩ := List.append_eq_nil_iff.mp ht
    exact ⟨p, .refl, .refl⟩
  | @step t' s o k h r ih =>
    rcases List.eq_nil_or_concat u with rfl | ⟨u, e, rfl⟩
    · rw [List.append_nil] at ht
      subst ht
      exact ⟨k r, h.step r, .refl⟩
    · rw [List.concat_eq_append, ← List.append_assoc] at ht
      obtain ⟨hu, he⟩ := List.append_inj' ht rfl
      cases he
      obtain ⟨m, hm, hrest⟩ := ih hu
      exact ⟨m, hm, by simpa using hrest.step r⟩

theorem At.rest {p q : Prog Resp σ α} {t u : Trace Resp} {s : σ} {o : Op}
    {k : Resp o → Prog Resp σ α} {r : Resp o} (hcall : At p t (.call s o k))
    (h : At p (t ++ ⟨o, r⟩ :: u) q) : At (k r) u q := by
  rw [← List.singleton_append, ← List.append_assoc] at h
  obtain ⟨m, hm, hrest⟩ := h.split
  rwa [(hcall.step r).functional hm]

theorem At.pending {p q : Prog Resp σ α} {t u : Trace Resp} {e : Ev Resp}
    (h : At p (t ++ e :: u) q) : ∃ s k, At p t (.call s e.op k) := by
  rw [← List.singleton_append, ← List.append_assoc] at h
  obtain ⟨m, hm, -⟩ := h.split
  generalize ht : t ++ [e] = t' at hm
  cases hm with
  | refl => simp at ht
  | step hcall r =>
    obtain ⟨rfl, he⟩ := List.append_inj' ht rfl
    cases he
    exact ⟨_, _, hcall⟩

theorem at_done {s : σ} {a : α} {t : Trace Resp} {q : Prog Resp σ α} (h : At (.done s a) t q) :
    q = .done s a := by
  induction h with
  | refl => rfl
  | step _ _ ih => cases ih

theorem at_done_nil {s : σ} {a : α} {t : Trace Resp} {q : Prog Resp σ α}
    (h : At (.done s a) t q) : t = [] := by
  cases h with
  | refl => rfl
  | step hcall _ => cases at_done hcall

/-- Run a program against an environment that computes its answers. The result
is the node where the program stands after at most `n` answers. -/
def runWith (answer : (o : Op) → τ → Resp o × τ) :
    ℕ → Prog Resp σ α → τ → Prog Resp σ α × Trace Resp × τ
  | 0, p, e => (p, [], e)
  | _ + 1, .done s a, e => (.done s a, [], e)
  | _ + 1, .cut s, e => (.cut s, [], e)
  | n + 1, .call _ o k, e =>
    let r := answer o e
    let rest := runWith answer n (k r.1) r.2
    (rest.1, ⟨o, r.1⟩ :: rest.2.1, rest.2.2)

theorem at_runWith (answer : (o : Op) → τ → Resp o × τ) (n : ℕ) (p : Prog Resp σ α) (e : τ) :
    At p (runWith answer n p e).2.1 (runWith answer n p e).1 := by
  induction n generalizing p e with
  | zero => exact At.refl
  | succ n ih =>
    cases p with
    | done s a => exact At.refl
    | cut s => exact At.refl
    | call s o k =>
      exact At.trans (At.step At.refl (answer o e).1) (ih (k (answer o e).1) (answer o e).2)

/-- The state and the result of a program that is finished. -/
def Prog.outcome : Prog Resp σ α → Option (σ × α)
  | .done s a => some (s, a)
  | _ => none

/-- Where a program ends when it is run, as far as `φ` shows it. -/
theorem at_of_outcome (answer : (o : Op) → τ → Resp o × τ) (n : ℕ) (p : Prog Resp σ α) (e : τ)
    (φ : σ → α → γ) {c : γ}
    (h : (runWith answer n p e).1.outcome.map (fun x => φ x.1 x.2) = some c) :
    ∃ s a, φ s a = c ∧ At p (runWith answer n p e).2.1 (.done s a) := by
  have hat := at_runWith answer n p e
  cases hp : (runWith answer n p e).1 with
  | done s a =>
    rw [hp] at h hat
    exact ⟨s, a, Option.some.inj h, hat⟩
  | call | cut =>
    rw [hp] at h
    cases h

/-- With answers for all its calls a program comes to an end. -/
theorem runWith_ends (answer : (o : Op) → τ → Resp o × τ) (p : Prog Resp σ α) (e : τ) :
    ∃ n, (∃ s a, (runWith answer n p e).1 = .done s a) ∨
      ∃ s, (runWith answer n p e).1 = .cut s := by
  induction p generalizing e with
  | done s a => exact ⟨0, .inl ⟨s, a, rfl⟩⟩
  | cut s => exact ⟨0, .inr ⟨s, rfl⟩⟩
  | call s o k ih =>
    obtain ⟨n, h⟩ := ih (answer o e).1 (answer o e).2
    exact ⟨n + 1, h⟩

/-! ### Safety of a program along every trace -/

/-- What is asked of a program along the way: at every call it makes, and where it
is cut off. -/
structure Obligation (Resp : Op → Type) (σ : Type) where
  call : Trace Resp → σ → Op → Prop
  cut : Trace Resp → σ → Prop

section Safety
variable (inv : Obligation Resp σ)

/-- `Safe inv Q p t`: after the trace `t`, the program `p` meets `inv` at every
call it ever makes and `Q` where it finishes, whatever is answered. -/
def Safe (Q : Trace Resp → σ → α → Prop) : Prog Resp σ α → Trace Resp → Prop
  | .done s a, t => Q t s a
  | .call s o k, t => inv.call t s o ∧ ∀ r, Safe Q (k r) (t ++ [⟨o, r⟩])
  | .cut s, t => inv.cut t s

variable {inv}

@[simp] theorem safe_done {Q : Trace Resp → σ → α → Prop} {s : σ} {a : α} {t : Trace Resp} :
    Safe inv Q (.done s a) t ↔ Q t s a := Iff.rfl

@[simp] theorem safe_call {Q : Trace Resp → σ → α → Prop} {s : σ} {o : Op}
    {k : Resp o → Prog Resp σ α} {t : Trace Resp} :
    Safe inv Q (.call s o k) t ↔ inv.call t s o ∧ ∀ r, Safe inv Q (k r) (t ++ [⟨o, r⟩]) := Iff.rfl

@[simp] theorem safe_cut {Q : Trace Resp → σ → α → Prop} {s : σ} {t : Trace Resp} :
    Safe inv Q (.cut s : Prog Resp σ α) t ↔ inv.cut t s := Iff.rfl

theorem safe_mono {Q R : Trace Resp → σ → α → Prop} (h : ∀ t s a, Q t s a → R t s a)
    {p : Prog Resp σ α} {t : Trace Resp} (hp : Safe inv Q p t) : Safe inv R p t := by
  induction p generalizing t with
  | done s a => exact h t s a hp
  | call s o k ih => exact ⟨hp.1, fun r => ih r (hp.2 r)⟩
  | cut s => exact hp

theorem safe_both {inv' : Obligation Resp σ} {Q R : Trace Resp → σ → α → Prop}
    {p : Prog Resp σ α} {t : Trace Resp} (h : Safe inv Q p t) (h' : Safe inv' R p t) :
    Safe inv (fun t s a => Q t s a ∧ R t s a) p t := by
  induction p generalizing t with
  | done => exact ⟨h, h'⟩
  | call _ _ _ ih => exact ⟨h.1, fun r => ih r (h.2 r) (h'.2 r)⟩
  | cut => exact h

/-- What is known of a program run on its own holds of it after any trace. -/
theorem safe_after {inv' : Obligation Resp σ} {Q Q' : Trace Resp → σ → α → Prop}
    (t : Trace Resp) (hcall : ∀ u s o, inv.call u s o → inv'.call (t ++ u) s o)
    (hcut : ∀ u s, inv.cut u s → inv'.cut (t ++ u) s)
    (hQ : ∀ u s a, Q u s a → Q' (t ++ u) s a) {p : Prog Resp σ α} (h : Safe inv Q p []) :
    Safe inv' Q' p t := by
  suffices hsafe : ∀ u, Safe inv Q p u → Safe inv' Q' p (t ++ u) by simpa using hsafe [] h
  clear h
  induction p with
  | done s a => exact fun u => hQ u s a
  | call s o k ih =>
    intro u hu
    refine ⟨hcall u s o hu.1, fun r => ?_⟩
    rw [List.append_assoc]
    exact ih r _ (hu.2 r)
  | cut s => exact fun u => hcut u s

/-- A program about whose future nothing is asked that does not hold anyway. -/
theorem safe_of_extends {Q : Trace Resp → σ → α → Prop} {t : Trace Resp}
    (hcall : ∀ u s o, inv.call (t ++ u) s o) (hcut : ∀ u s, inv.cut (t ++ u) s)
    (hQ : ∀ u s a, Q (t ++ u) s a) (p : Prog Resp σ α) : Safe inv Q p t := by
  have h : ∀ u, Safe inv Q p (t ++ u) := by
    induction p with
    | done s a => exact fun u => hQ u s a
    | call s o k ih =>
      refine fun u => ⟨hcall u s o, fun r => ?_⟩
      rw [List.append_assoc]
      exact ih r _
    | cut s => exact fun u => hcut u s
  simpa using h []

theorem safe_bind {Q : Trace Resp → σ → β → Prop} {f : α → Act Resp σ β}
    {p : Prog Resp σ α} {t : Trace Resp}
    (hp : Safe inv (fun t s a => Safe inv Q (f a s) t) p t) : Safe inv Q (p.bind f) t := by
  induction p generalizing t with
  | done s a => exact hp
  | call s o k ih => exact ⟨hp.1, fun r => ih r (hp.2 r)⟩
  | cut s => exact hp

/-- The loop rule with the rounds that are left: a body that keeps `J` when it goes round
and establishes `Q` when it leaves. -/
theorem safe_iter_countdown {Q : Trace Resp → σ → α → Prop} {body : β → Act Resp σ (β ⊕ α)}
    (J : ℕ → β → Trace Resp → σ → Prop) (hcut : ∀ b t s, J 0 b t s → inv.cut t s)
    (h : ∀ n b t s, J (n + 1) b t s →
      Safe inv (fun t s r => r.elim (fun b' => J n b' t s) (fun a => Q t s a)) (body b s) t)
    (n : ℕ) {b : β} {t : Trace Resp} {s : σ} (hJ : J n b t s) :
    Safe inv Q (iter body n b s) t := by
  induction n generalizing b t s with
  | zero => exact hcut b t s hJ
  | succ n ih =>
    refine safe_bind (safe_mono ?_ (h n b t s hJ))
    intro t s r hr
    cases r with
    | inl b' => exact ih hr
    | inr a => exact hr

/-- The loop rule for any number of rounds. -/
theorem safe_iter {Q : Trace Resp → σ → α → Prop} {body : β → Act Resp σ (β ⊕ α)}
    (J : β → Trace Resp → σ → Prop) (hcut : ∀ b t s, J b t s → inv.cut t s)
    (h : ∀ b t s, J b t s → Safe inv (fun t s r => r.elim (fun b' => J b' t s) (fun a => Q t s a))
      (body b s) t)
    (n : ℕ) {b : β} {t : Trace Resp} {s : σ} (hJ : J b t s) : Safe inv Q (iter body n b s) t :=
  safe_iter_countdown (fun _ => J) hcut (fun _ => h) n hJ

theorem safe_at {Q : Trace Resp → σ → α → Prop} {p q : Prog Resp σ α} {t u : Trace Resp}
    (hp : Safe inv Q p t) (h : At p u q) : Safe inv Q q (t ++ u) := by
  induction h with
  | refl => simpa using hp
  | step _ r ih =>
    have hk := ih.2 r
    rwa [List.append_assoc] at hk

/-- Every call of a trace met `inv` when it was made. -/
theorem safe_mem {Q : Trace Resp → σ → α → Prop} {p q : Prog Resp σ α} {t u : Trace Resp}
    (hp : Safe inv Q p t) (h : At p u q) {e : Ev Resp} (he : e ∈ u) :
    ∃ u' s, u' <+: u ∧ inv.call (t ++ u') s e.op := by
  induction h with
  | refl => cases he
  | @step u s o k hat r ih =>
    rcases List.mem_append.mp he with he | he
    · obtain ⟨u', s', hu', hcall⟩ := ih he
      exact ⟨u', s', hu'.trans (List.prefix_append _ _), hcall⟩
    · rw [List.mem_singleton.mp he]
      exact ⟨u, s, List.prefix_append _ _, (safe_at hp hat).1⟩

end Safety

/-! ### Programs among more calls -/

section Lifting
variable {Op' : Type} {Resp' : Op' → Type} (ι : Op → Op')

/-- The program with its calls taken for calls of a larger kind. -/
def Prog.lift : Prog (fun o => Resp' (ι o)) σ α → Prog Resp' σ α
  | .done s a => .done s a
  | .call s o k => .call s (ι o) fun r => (k r).lift
  | .cut s => .cut s

def Ev.lift (e : Ev fun o => Resp' (ι o)) : Ev Resp' := ⟨ι e.op, e.resp⟩

variable {ι}

theorem At.lift {p q : Prog (fun o => Resp' (ι o)) σ α} {t : Trace fun o => Resp' (ι o)}
    (h : At p t q) : At (p.lift ι) (t.map (Ev.lift ι)) (q.lift ι) := by
  induction h with
  | refl => exact .refl
  | step _ r ih =>
    rw [List.map_append]
    exact ih.step r

/-- What is known of a program run on its own holds of it among more calls, after any trace. -/
theorem safe_lift {inv : Obligation (fun o => Resp' (ι o)) σ} {inv' : Obligation Resp' σ}
    {Q : Trace (fun o => Resp' (ι o)) → σ → α → Prop} {Q' : Trace Resp' → σ → α → Prop}
    (t : Trace Resp')
    (hcall : ∀ u s o, inv.call u s o → inv'.call (t ++ u.map (Ev.lift ι)) s (ι o))
    (hcut : ∀ u s, inv.cut u s → inv'.cut (t ++ u.map (Ev.lift ι)) s)
    (hQ : ∀ u s a, Q u s a → Q' (t ++ u.map (Ev.lift ι)) s a)
    {p : Prog (fun o => Resp' (ι o)) σ α} (h : Safe inv Q p []) : Safe inv' Q' (p.lift ι) t := by
  suffices hsafe : ∀ u, Safe inv Q p u → Safe inv' Q' (p.lift ι) (t ++ u.map (Ev.lift ι)) by
    simpa using hsafe [] h
  clear h
  induction p with
  | done s a => exact fun u => hQ u s a
  | call s o k ih =>
    intro u hu
    refine ⟨hcall u s o hu.1, fun r => ?_⟩
    have hnext := ih r _ (hu.2 r)
    rwa [List.map_append, ← List.append_assoc] at hnext
  | cut s => exact fun u => hcut u s

end Lifting

/-! ### Answers that end a program -/

/-- Every answer of the kind `E` ends the program at once: with `a`, in the state in which
it has waited for the answer. -/
def EndsWith (E : Ev Resp → Prop) (a : α) : Prog Resp σ α → Prop
  | .call s o k => ∀ r, (E ⟨o, r⟩ → k r = .done s a) ∧ EndsWith E a (k r)
  | _ => True

/-- The obligation to make no call that could be answered so. -/
def without (E : Ev Resp → Prop) : Obligation Resp σ where
  call _ _ o := ∀ r, ¬ E ⟨o, r⟩
  cut _ _ := True

section Ending
variable {E : Ev Resp → Prop} {a : α} {b : β} {f : α → Act Resp σ β} {p : Prog Resp σ α}

theorem endsWith_at (h : EndsWith E a p) {u : Trace Resp} {s : σ} {o : Op}
    {k : Resp o → Prog Resp σ α} (hat : At p u (.call s o k)) {r : Resp o} (hr : E ⟨o, r⟩) :
    k r = .done s a := by
  have hnode : ∀ {u q}, At p u q → EndsWith E a q := by
    intro u q hat
    induction hat with
    | refl => exact h
    | step _ r ih => exact (ih r).2
  exact (hnode hat r).1 hr

theorem endsWith_bind (h : EndsWith E a p) (ha : ∀ s, f a s = .done s b)
    (hf : ∀ x s, EndsWith E b (f x s)) : EndsWith E b (p.bind f) := by
  induction p with
  | done s x => exact hf x s
  | cut s => trivial
  | call s o k ih =>
    refine fun r => ⟨fun hr => ?_, ih r (h r).2⟩
    have hnext : (k r).bind f = f a s := by rw [(h r).1 hr, bind_done]
    exact hnext.trans (ha s)

/-- The first part of a program makes no such call. -/
theorem endsWith_bind_without {t : Trace Resp}
    (h : Safe (without E) (fun _ s x => EndsWith E b (f x s)) p t) : EndsWith E b (p.bind f) := by
  induction p generalizing t with
  | done s x => exact h
  | cut s => trivial
  | call s o k ih => exact fun r => ⟨fun hr => absurd hr (h.1 r), ih r (h.2 r)⟩

theorem endsWith_of_without {t : Trace Resp} (h : Safe (without E) (fun _ _ _ => True) p t) :
    EndsWith E a p := by
  induction p generalizing t with
  | done s x => trivial
  | cut s => trivial
  | call s o k ih => exact fun r => ⟨fun hr => absurd hr (h.1 r), ih r (h.2 r)⟩

theorem endsWith_iter {body : γ → Act Resp σ (γ ⊕ α)}
    (h : ∀ c s, EndsWith E (.inr a) (body c s)) (n : ℕ) (c : γ) (s : σ) :
    EndsWith E a (iter body n c s) := by
  induction n generalizing c s with
  | zero => trivial
  | succ n ih =>
    refine endsWith_bind (h c s) (fun _ => rfl) fun x s' => ?_
    cases x with
    | inl c' => exact ih c' s'
    | inr x => trivial

end Ending

/-! ### Runs: call after call on one state -/

/-- What is being run: nothing, or one of the calls. -/
inductive Status (Resp : Op → Type) (ι σ α : Type) where
  | idle (s : σ)
  | busy (i : ι) (p : Prog Resp σ α)

def Status.state {ι : Type} : Status Resp ι σ α → σ
  | .idle s => s
  | .busy _ p => p.state

/-- The status with other names for the calls. -/
def Status.map {ι κ : Type} (g : ι → κ) : Status Resp ι σ α → Status Resp κ σ α
  | .idle s => .idle s
  | .busy i p => .busy (g i) p

/-- Every state, log of finished calls and trace that some run of the calls
`call` from `s₀` leads to; the answers and the order of calls are arbitrary. -/
inductive Reach {ι : Type} (call : ι → Act Resp σ α) (s₀ : σ) :
    List (ι × α) → Trace Resp → Status Resp ι σ α → Prop
  | start : Reach call s₀ [] [] (.idle s₀)
  | enter {log t s} : Reach call s₀ log t (.idle s) → (i : ι) →
      Reach call s₀ log t (.busy i (call i s))
  | answer {log t i s o k} : Reach call s₀ log t (.busy i (.call s o k)) → (r : Resp o) →
      Reach call s₀ log (t ++ [⟨o, r⟩]) (.busy i (k r))
  | leave {log t i s a} : Reach call s₀ log t (.busy i (.done s a)) →
      Reach call s₀ (log ++ [(i, a)]) t (.idle s)

section Runs
variable {ι : Type} {call : ι → Act Resp σ α} {s₀ : σ}

/-- What a status of a run means for an invariant `J` of the states between
calls: `J` holds when nothing runs, and what runs will establish it. -/
def Held (inv : Obligation Resp σ) (J : List (ι × α) → Trace Resp → σ → Prop)
    (log : List (ι × α)) (t : Trace Resp) : Status Resp ι σ α → Prop
  | .idle s => J log t s
  | .busy i p => Safe inv (fun t s a => J (log ++ [(i, a)]) t s) p t

/-- The run rule: an invariant of the initial state that every call keeps holds
between the calls of every run, and `inv` holds at every call node of it. The
calls of the run may be limited to some. -/
theorem reach_held_of {inv : Obligation Resp σ} {J : List (ι × α) → Trace Resp → σ → Prop}
    {C : ι → Prop} (h₀ : J [] [] s₀)
    (hcall : ∀ i log t s, C i → J log t s →
      Safe inv (fun t s a => J (log ++ [(i, a)]) t s) (call i s) t)
    {log : List (ι × α)} {t : Trace Resp} {st : Status Resp ι σ α}
    (h : Reach call s₀ log t st) (hlog : ∀ e ∈ log, C e.1)
    (hbusy : ∀ i p, st = .busy i p → C i) : Held inv J log t st := by
  induction h with
  | start => exact h₀
  | enter _ i ih => exact hcall i _ _ _ (hbusy i _ rfl) (ih hlog fun i p hi => by cases hi)
  | answer _ r ih =>
    refine (ih hlog fun i p hi => ?_).2 r
    cases hi
    exact hbusy _ _ rfl
  | @leave log t i s a _ ih =>
    refine ih (fun e he => hlog e (List.mem_append_left _ he)) fun i p hi => ?_
    cases hi
    exact hlog (i, a) (by simp)

theorem reach_held {inv : Obligation Resp σ} {J : List (ι × α) → Trace Resp → σ → Prop}
    (h₀ : J [] [] s₀)
    (hcall : ∀ i log t s, J log t s → Safe inv (fun t s a => J (log ++ [(i, a)]) t s) (call i s) t)
    {log : List (ι × α)} {t : Trace Resp} {st : Status Resp ι σ α}
    (h : Reach call s₀ log t st) : Held inv J log t st :=
  reach_held_of (C := fun _ => True) h₀ (fun i log t s _ hJ => hcall i log t s hJ) h
    (fun _ _ => trivial) (fun _ _ _ => trivial)

/-- Under the run rule `inv` held at every call in the trace. -/
theorem reach_mem_of {inv : Obligation Resp σ} {J : List (ι × α) → Trace Resp → σ → Prop}
    {C : ι → Prop} (h₀ : J [] [] s₀)
    (hcall : ∀ i log t s, C i → J log t s →
      Safe inv (fun t s a => J (log ++ [(i, a)]) t s) (call i s) t)
    {log : List (ι × α)} {t : Trace Resp} {st : Status Resp ι σ α}
    (h : Reach call s₀ log t st) (hlog : ∀ e ∈ log, C e.1)
    (hbusy : ∀ i p, st = .busy i p → C i) {e : Ev Resp} (he : e ∈ t) :
    ∃ t' s, t' <+: t ∧ inv.call t' s e.op := by
  induction h with
  | start => cases he
  | enter _ i ih => exact ih hlog (fun i p hi => by cases hi) he
  | @answer log t i s o k hr r ih =>
    have hi : ∀ j p, (Status.busy i (.call s o k) : Status Resp ι σ α) = .busy j p → C j := by
      rintro j p hj
      cases hj
      exact hbusy i _ rfl
    rcases List.mem_append.mp he with he | he
    · obtain ⟨t', s', ht', hinv⟩ := ih hlog hi he
      exact ⟨t', s', ht'.trans (List.prefix_append _ _), hinv⟩
    · rw [List.mem_singleton.mp he]
      exact ⟨t, s, List.prefix_append _ _, (reach_held_of h₀ hcall hr hlog hi).1⟩
  | @leave log t i s a _ ih =>
    refine ih (fun e he => hlog e (List.mem_append_left _ he)) (fun j p hj => ?_) he
    cases hj
    exact hlog (i, a) (by simp)

/-- A run that is inside a call was at rest before it, with the same log. -/
theorem Reach.rested {log : List (ι × α)} {t : Trace Resp} {st : Status Resp ι σ α}
    (h : Reach call s₀ log t st) : ∃ t₀ s, t₀ <+: t ∧ Reach call s₀ log t₀ (.idle s) := by
  induction h with
  | start => exact ⟨[], s₀, List.prefix_rfl, .start⟩
  | enter h _ _ => exact ⟨_, _, List.prefix_rfl, h⟩
  | answer _ _ ih =>
    obtain ⟨t₀, s, ht, h⟩ := ih
    exact ⟨t₀, s, ht.trans (List.prefix_append _ _), h⟩
  | leave h _ => exact ⟨_, _, List.prefix_rfl, .leave h⟩

/-- What a run that is inside a call has done of it. -/
theorem Reach.inside {log : List (ι × α)} {t : Trace Resp} {i : ι} {p : Prog Resp σ α}
    (h : Reach call s₀ log t (.busy i p)) :
    ∃ t₀ s u, t = t₀ ++ u ∧ Reach call s₀ log t₀ (.idle s) ∧ At (call i s) u p := by
  generalize hst : Status.busy i p = st at h
  induction h generalizing p with
  | start => cases hst
  | enter h _ _ =>
    cases hst
    exact ⟨_, _, [], (List.append_nil _).symm, h, .refl⟩
  | answer _ r ih =>
    cases hst
    obtain ⟨t₀, s, u, rfl, hidle, hat⟩ := ih rfl
    exact ⟨t₀, s, _, List.append_assoc _ _ _, hidle, .step hat r⟩
  | leave _ _ => cases hst

theorem Reach.event {log : List (ι × α)} {t t₁ t₂ : Trace Resp} {e : Ev Resp}
    {st : Status Resp ι σ α} (h : Reach call s₀ log t st) (ht : t = t₁ ++ e :: t₂) :
    ∃ log' i s k, Reach call s₀ log' t₁ (.busy i (.call s e.op k)) := by
  induction h generalizing t₂ with
  | start => simp at ht
  | enter _ _ ih => exact ih ht
  | leave _ ih => exact ih ht
  | @answer log t i s o k hr r ih =>
    rcases List.eq_nil_or_concat t₂ with rfl | ⟨t₂, e', rfl⟩
    · obtain ⟨rfl, he⟩ := List.append_inj' ht rfl
      cases he
      exact ⟨log, i, s, k, hr⟩
    · rw [List.concat_eq_append, ← List.cons_append, ← List.append_assoc] at ht
      exact ih (List.append_inj' ht rfl).1

theorem reach_at {log : List (ι × α)} {t u : Trace Resp} {i : ι} {p q : Prog Resp σ α}
    (h : Reach call s₀ log t (.busy i p)) (hq : At p u q) :
    Reach call s₀ log (t ++ u) (.busy i q) := by
  induction hq with
  | refl => simpa using h
  | step _ r ih =>
    rw [← List.append_assoc]
    exact Reach.answer ih r

/-- The runs of whole calls each of which is `ok`, as far as the state before it and its own
trace go. -/
inductive Calls (call : ι → Act Resp σ α) (ok : σ → ι → Trace Resp → Prop) (s₀ : σ) :
    Trace Resp → σ → Prop
  | start : Calls call ok s₀ [] s₀
  | next {t u s s' i a} (h : Calls call ok s₀ t s) (hat : At (call i s) u (.done s' a))
      (hok : ok s i u) : Calls call ok s₀ (t ++ u) s'

theorem Calls.reach {ok : σ → ι → Trace Resp → Prop} {t : Trace Resp} {s : σ}
    (h : Calls call ok s₀ t s) : ∃ log, Reach call s₀ log t (.idle s) := by
  induction h with
  | start => exact ⟨[], .start⟩
  | next _ hat _ ih =>
    obtain ⟨log, hlog⟩ := ih
    exact ⟨_, (reach_at (hlog.enter _) hat).leave⟩

/-- A run of some of the calls is a run of all of them. -/
theorem reach_map {κ : Type} {call : κ → Act Resp σ α} (g : ι → κ) {log : List (ι × α)}
    {t : Trace Resp} {st : Status Resp ι σ α} (h : Reach (fun i => call (g i)) s₀ log t st) :
    Reach call s₀ (log.map (Prod.map g id)) t (st.map g) := by
  induction h with
  | start => exact .start
  | enter _ i ih => exact .enter ih (g i)
  | answer _ r ih => exact .answer ih r
  | leave _ ih =>
    rw [List.map_append]
    exact .leave ih

end Runs

/-! ### Invariants of the trace and the state -/

/-- `I` holds at every call. -/
abbrev always (I : Trace Resp → σ → Prop) : Obligation Resp σ := ⟨fun t s _ => I t s, I⟩

/-- If `I` holds of the trace and the state where the action starts, it does so wherever the
action stands. -/
def Holds (I : Trace Resp → σ → Prop) (m : Act Resp σ α) : Prop :=
  ∀ s t, I t s → Safe (always I) (fun t s _ => I t s) (m s) t

/-- If `R` holds of the state where the action starts, it does so wherever the action stands. -/
def Keeps (R : σ → Prop) (m : Act Resp σ α) : Prop :=
  ∀ s t, R s → Safe ⟨fun _ s _ => R s, fun _ s => R s⟩ (fun _ s _ => R s) (m s) t

section Keeping
variable {I : Trace Resp → σ → Prop} {m : Act Resp σ α}

theorem holds_pure (a : α) : Holds I (pure a : Act Resp σ α) := fun _ _ h => h

theorem holds_perform {o : Op} (h : ∀ t s r, I t s → I (t ++ [⟨o, r⟩]) s) :
    Holds I (perform o : Act Resp σ (Resp o)) :=
  fun s t hs => ⟨hs, fun r => h t s r hs⟩

theorem holds_modify {f : σ → σ} (h : ∀ t s, I t s → I t (f s)) :
    Holds I (modify f : Act Resp σ Unit) := fun s t hs => h t s hs

theorem holds_bind {f : α → Act Resp σ β} (hm : Holds I m) (hf : ∀ a, Holds I (f a)) :
    Holds I (m >>= f) :=
  fun s t h => safe_bind (safe_mono (fun t' s' a h' => hf a s' t' h') (hm s t h))

theorem holds_get {f : σ → Act Resp σ α} (hf : ∀ s, Holds I (f s)) : Holds I (get >>= f) :=
  fun s t h => hf s s t h

theorem holds_iter {body : β → Act Resp σ (β ⊕ α)} (hbody : ∀ b, Holds I (body b)) (fuel : ℕ)
    (b : β) : Holds I (iter body fuel b) := by
  induction fuel generalizing b with
  | zero => exact fun _ _ h => h
  | succ fuel ih =>
    refine holds_bind (hbody b) fun next => ?_
    cases next with
    | inl b' => exact ih b'
    | inr a => exact holds_pure a

/-- An invariant that the calls of a run keep holds in every state of the run. -/
theorem reach_holds {ι : Type} {call : ι → Act Resp σ α} {s₀ : σ} {log : List (ι × α)}
    {t : Trace Resp} {st : Status Resp ι σ α} {C : ι → Prop} (hcall : ∀ i, C i → Holds I (call i))
    (h₀ : I [] s₀) (h : Reach call s₀ log t st) (hlog : ∀ e ∈ log, C e.1)
    (hbusy : ∀ i p, st = .busy i p → C i) : I t st.state := by
  have hheld := reach_held_of (J := fun _ t s => I t s) h₀
    (fun i _ t s hi hs => hcall i hi s t hs) h hlog hbusy
  cases st with
  | idle s => exact hheld
  | busy i p =>
    cases p with
    | done s a => exact hheld
    | call s o k => exact hheld.1
    | cut s => exact hheld

theorem reach_keeps {ι : Type} {call : ι → Act Resp σ α} {s₀ : σ} {log : List (ι × α)}
    {R : σ → Prop} {t : Trace Resp} {st : Status Resp ι σ α} (hcall : ∀ i, Keeps R (call i))
    (h₀ : R s₀) (h : Reach call s₀ log t st) : R st.state :=
  reach_holds (I := fun _ s => R s) (C := fun _ => True) (fun i _ => hcall i) h₀ h
    (fun _ _ => trivial) (fun _ _ _ => trivial)

end Keeping

end Resumption

import SyntriassOverlay.Lib.Resumption

/-!
# Refinement of resumptions

A program refines another one if what is seen of its calls is a run of the other one, and both
come to the same result. A `view` says what is seen of a call that was answered: a call of the
other program, several of them or nothing. Parts of which nothing is seen can stand anywhere.
-/

namespace Resumption

variable {Op Op' : Type} {Resp : Op → Type} {Resp' : Op' → Type} {σ τ α β γ : Type}

theorem Prog.bind_pure (p : Prog Resp σ α) : p.bind pure = p := by
  induction p with
  | done s a => rfl
  | call s o k ih => exact congrArg (Prog.call s o) (funext ih)
  | cut s => rfl

theorem Prog.bind_assoc (p : Prog Resp σ α) (f : α → Act Resp σ β) (g : β → Act Resp σ γ) :
    (p.bind f).bind g = p.bind fun a => f a >>= g := by
  induction p with
  | done s a => rfl
  | call s o k ih => exact congrArg (Prog.call s o) (funext ih)
  | cut s => rfl

theorem Act.bind_pure (m : Act Resp σ α) : m >>= pure = m :=
  funext fun s => (m s).bind_pure

theorem Act.bind_assoc (m : Act Resp σ α) (f : α → Act Resp σ β) (g : β → Act Resp σ γ) :
    m >>= f >>= g = m >>= fun a => f a >>= g :=
  funext fun s => (m s).bind_assoc f g

theorem at_perform (o : Op) (r : Resp o) (s : σ) :
    At (perform o s : Prog Resp σ (Resp o)) [⟨o, r⟩] (.done s r) :=
  .step .refl r

variable (view : Ev Resp' → Trace Resp)

/-- Whatever the first program is answered, the second one can follow it. -/
def Prog.Refines : Prog Resp' τ α → Prog Resp σ α → Prop
  | .done _ a, p => ∃ s, p = .done s a
  | .call _ o k, p => ∀ r, ∃ q, At p (view ⟨o, r⟩) q ∧ (k r).Refines q
  | .cut _, _ => True

def Refines (m : Act Resp' τ α) (p : Act Resp σ α) : Prop := ∀ s' s, (m s').Refines view (p s)

/-- Every call that the action makes is `ok`. -/
def Every (ok : Op → Prop) (m : Act Resp σ α) : Prop :=
  ∀ s t, Safe ⟨fun _ _ o => ok o, fun _ _ => True⟩ (fun _ _ _ => True) (m s) t

/-- Nothing is seen of the call. -/
def Unseen (o : Op') : Prop := ∀ r, view ⟨o, r⟩ = []

variable {view}

/-! ### Actions whose calls are all of a kind -/

section
variable {ok : Op → Prop}

theorem every_pure (a : α) : Every ok (pure a : Act Resp σ α) := fun _ _ => trivial

theorem every_perform {o : Op} (h : ok o) : Every ok (perform o : Act Resp σ (Resp o)) :=
  fun _ _ => ⟨h, fun _ => trivial⟩

theorem every_bind {m : Act Resp σ α} {f : α → Act Resp σ β} (hm : Every ok m)
    (hf : ∀ a, Every ok (f a)) : Every ok (m >>= f) :=
  fun s t => safe_bind (safe_mono (fun t' s' a _ => hf a s' t') (hm s t))

theorem every_iter {body : β → Act Resp σ (β ⊕ α)} (hbody : ∀ b, Every ok (body b)) (fuel : ℕ)
    (b : β) : Every ok (iter body fuel b) := by
  induction fuel generalizing b with
  | zero => exact fun _ _ => trivial
  | succ fuel ih =>
    apply every_bind (hbody b)
    intro next
    cases next with
    | inl b' => exact ih b'
    | inr a => exact every_pure a

theorem Every.of_mem {m : Act Resp σ α} (h : Every ok m) {s : σ} {t : Trace Resp}
    {q : Prog Resp σ α} (hat : At (m s) t q) {e : Ev Resp} (he : e ∈ t) : ok e.op := by
  obtain ⟨u, s', -, hok⟩ := safe_mem (h s []) hat he
  exact hok

end

/-! ### Rules -/

theorem Prog.Refines.bind {m : Prog Resp' τ α} {p : Prog Resp σ α} {g : α → Act Resp' τ β}
    {f : α → Act Resp σ β} (h : m.Refines view p) (hg : ∀ a, Resumption.Refines view (g a) (f a)) :
    (m.bind g).Refines view (p.bind f) := by
  induction m generalizing p with
  | done s a =>
    obtain ⟨s', rfl⟩ := h
    exact hg a s s'
  | call s o k ih =>
    intro r
    obtain ⟨q, hq, hr⟩ := h r
    exact ⟨q.bind f, hq.bind f, ih r hr⟩
  | cut s => trivial

theorem Prog.refines_of_unseen {m : Prog Resp' τ α} {p : Prog Resp σ β} {g : α → Act Resp' τ β}
    {t : Trace Resp'}
    (hm : Safe ⟨fun _ _ o => Unseen view o, fun _ _ => True⟩ (fun _ _ _ => True) m t)
    (hg : ∀ a s, (g a s).Refines view p) : (m.bind g).Refines view p := by
  induction m generalizing t with
  | done s a => exact hg a s
  | call s o k ih =>
    intro r
    refine ⟨p, ?_, ih r (hm.2 r)⟩
    rw [hm.1 r]
    exact .refl
  | cut s => trivial

theorem refines_pure (a : α) :
    Refines view (pure a : Act Resp' τ α) (pure a : Act Resp σ α) := fun _ s => ⟨s, rfl⟩

theorem refines_bind {m : Act Resp' τ α} {p : Act Resp σ α} {g : α → Act Resp' τ β}
    {f : α → Act Resp σ β} (hm : Refines view m p) (hg : ∀ a, Refines view (g a) (f a)) :
    Refines view (m >>= g) (p >>= f) :=
  fun s' s => (hm s' s).bind hg

/-- Something unseen comes first. -/
theorem refines_after {m : Act Resp' τ α} {p : Act Resp σ β} {g : α → Act Resp' τ β}
    (hm : Every (Unseen view) m) (hg : ∀ a, Refines view (g a) p) : Refines view (m >>= g) p :=
  fun s' s => Prog.refines_of_unseen (hm s' []) fun a s'' => hg a s'' s

/-- What comes behind is unseen and returns the same. -/
theorem refines_before {m : Act Resp' τ α} {p : Act Resp σ α} {g : α → Act Resp' τ α}
    (hm : Refines view m p) (hg : ∀ a, Refines view (g a) (pure a : Act Resp σ α)) :
    Refines view (m >>= g) p := by
  rw [← Act.bind_pure p]
  exact refines_bind hm hg

/-- What is seen of a run is a run of the other program. -/
theorem Prog.Refines.run {m m' : Prog Resp' τ α} {p : Prog Resp σ α} {t : Trace Resp'}
    (h : m.Refines view p) (hm : At m t m') :
    ∃ q, At p (t.flatMap view) q ∧ m'.Refines view q := by
  induction hm with
  | refl => exact ⟨p, .refl, h⟩
  | @step t s o k _ r ih =>
    obtain ⟨q, hq, hcall⟩ := ih
    obtain ⟨q', hq', hr⟩ := hcall r
    refine ⟨q', ?_, hr⟩
    rw [List.flatMap_append, List.flatMap_singleton]
    exact hq.trans hq'

end Resumption

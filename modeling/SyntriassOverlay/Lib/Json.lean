import Mathlib.Data.List.Basic
import Mathlib.Tactic.Common
import Mathlib.Tactic.IntervalCases

/-!
# JSON values, pointers and patches

JSON values with their members in order, JSON pointers as text (RFC 6901) and the operations
`add` and `replace` of JSON Patch (RFC 6902). A patch is applied to a changing document, one
operation after the other; `Under` collects the operations that all happen below one place of
the document, so that they can be followed on the value at that place alone.
-/

namespace Json

abbrev Text := List Char

/-- A number stands for itself as it is written. -/
inductive Value where
  | null
  | bool (b : Bool)
  | number (literal : Text)
  | string (s : Text)
  | array (items : List Value)
  | object (members : List (Text × Value))

/-! ### Members -/

section
variable {κ α : Type} [DecidableEq κ]

def lookupMember (k : κ) : List (κ × α) → Option α
  | [] => none
  | m :: ms => if k = m.1 then some m.2 else lookupMember k ms

/-- Set the member `k`: where it is, or behind the others. -/
def insertMember (k : κ) (x : α) : List (κ × α) → List (κ × α)
  | [] => [(k, x)]
  | m :: ms => if k = m.1 then (m.1, x) :: ms else m :: insertMember k x ms

theorem lookupMember_insertMember (k : κ) (x : α) (ms : List (κ × α)) :
    lookupMember k (insertMember k x ms) = some x := by
  induction ms with
  | nil => simp [insertMember, lookupMember]
  | cons m ms ih =>
    unfold insertMember
    split_ifs with h
    · rw [lookupMember, if_pos h]
    · rw [lookupMember, if_neg h, ih]

theorem lookupMember_insertMember_ne {j k : κ} (h : j ≠ k) (x : α) (ms : List (κ × α)) :
    lookupMember j (insertMember k x ms) = lookupMember j ms := by
  induction ms with
  | nil => simp [insertMember, lookupMember, h]
  | cons m ms ih =>
    unfold insertMember
    split_ifs with hm
    · rw [lookupMember, lookupMember, if_neg (hm ▸ h), if_neg (hm ▸ h)]
    · rw [lookupMember, lookupMember, ih]

theorem insertMember_insertMember (k : κ) (x y : α) (ms : List (κ × α)) :
    insertMember k y (insertMember k x ms) = insertMember k y ms := by
  induction ms with
  | nil => simp [insertMember]
  | cons m ms ih =>
    by_cases hm : k = m.1
    · simp [insertMember, hm]
    · simp [insertMember, hm, ih]

theorem insertMember_of_lookupMember {k : κ} {x : α} {ms : List (κ × α)}
    (h : lookupMember k ms = some x) : insertMember k x ms = ms := by
  induction ms with
  | nil => cases h
  | cons m ms ih =>
    rw [lookupMember] at h
    unfold insertMember
    split_ifs at h ⊢ with hm
    · rw [← Option.some.inj h]
    · rw [ih h]

/-- The keys stay in their order; only `k` can be new. -/
theorem keys_insertMember (k : κ) (x : α) (ms : List (κ × α)) :
    ∃ new, (insertMember k x ms).map Prod.fst = ms.map Prod.fst ++ new ∧ new ⊆ [k] := by
  induction ms with
  | nil => exact ⟨[k], rfl, List.Subset.refl _⟩
  | cons m ms ih =>
    unfold insertMember
    split_ifs with hm
    · exact ⟨[], by simp, List.nil_subset _⟩
    · obtain ⟨new, hkeys, hnew⟩ := ih
      exact ⟨new, by rw [List.map_cons, hkeys]; rfl, hnew⟩

end

/-! ### Indices -/

/-- An array index: decimal digits without a sign and without zeros in front. An index that
does not fit in a machine word is past the end of every array and is not treated apart. -/
def parseIndex (t : Text) : Option ℕ :=
  if t = [] ∨ t.head? = some '+' ∨ (t.head? = some '0' ∧ t.length ≠ 1) ∨ ¬ t.all Char.isDigit then
    none
  else some (Nat.ofDigitChars 10 t 0)

theorem toDigits_head {n : ℕ} (h : (Nat.toDigits 10 n).head? = some '0') : n = 0 := by
  induction n using Nat.strongRecOn with
  | ind n ih =>
    by_cases hlt : n < 10
    · rw [Nat.toDigits_of_lt_base hlt] at h
      interval_cases n <;> first | rfl | cases h
    · have hne : Nat.toDigits 10 (n / 10) ≠ [] := Nat.toDigits_ne_nil
      rw [Nat.toDigits_of_base_le (by decide) (by omega), List.head?_append_of_ne_nil _ hne] at h
      have hzero := ih (n / 10) (by omega) h
      omega

theorem isDigit_of_mem {n : ℕ} {c : Char} (h : c ∈ Nat.toDigits 10 n) : c.isDigit = true :=
  Nat.isDigit_of_mem_toDigits (by decide) (by decide) h

theorem not_mem_toDigits {c : Char} (hc : c.isDigit = false) (n : ℕ) :
    c ∉ Nat.toDigits 10 n := by
  intro hmem
  rw [isDigit_of_mem hmem] at hc
  cases hc

theorem parseIndex_toDigits (n : ℕ) : parseIndex (Nat.toDigits 10 n) = some n := by
  have hnot : ¬ (Nat.toDigits 10 n = [] ∨ (Nat.toDigits 10 n).head? = some '+' ∨
      ((Nat.toDigits 10 n).head? = some '0' ∧ (Nat.toDigits 10 n).length ≠ 1) ∨
      ¬ (Nat.toDigits 10 n).all Char.isDigit) := by
    rintro (hnil | hplus | ⟨hzero, hlen⟩ | hall)
    · exact Nat.toDigits_ne_nil hnil
    · exact not_mem_toDigits (by decide) n (List.mem_of_head? hplus)
    · rw [toDigits_head hzero] at hlen
      exact hlen rfl
    · exact hall (List.all_eq_true.mpr fun _ => isDigit_of_mem)
  rw [parseIndex, if_neg hnot, Nat.ofDigitChars_toDigits (by decide) (by decide)]

/-! ### Places in a value -/

namespace Value

/-- The value that one token of a pointer leads to. -/
def child (v : Value) (k : Text) : Option Value :=
  match v with
  | .object ms => lookupMember k ms
  | .array items => (parseIndex k).bind fun i => items[i]?
  | _ => none

/-- Put `x` in the place of a child, or beside the other members of an object. -/
def put (v : Value) (k : Text) (x : Value) : Option Value :=
  match v with
  | .object ms => some (.object (insertMember k x ms))
  | .array items => (parseIndex k).bind fun i =>
      if i < items.length then some (.array (items.set i x)) else none
  | _ => none

variable {k : Text} {v v' x y : Value}

theorem child_put (h : v.put k x = some v') : v'.child k = some x := by
  cases v with
  | object ms =>
    cases h
    exact lookupMember_insertMember k x ms
  | array items =>
    obtain ⟨i, hi, h⟩ := Option.bind_eq_some_iff.mp h
    split_ifs at h with hlt
    cases h
    simp [child, hi, hlt]
  | _ => cases h

theorem put_put (h : v.put k x = some v') (y : Value) : v'.put k y = v.put k y := by
  cases v with
  | object ms =>
    cases h
    simp [put, insertMember_insertMember]
  | array items =>
    obtain ⟨i, hi, h⟩ := Option.bind_eq_some_iff.mp h
    split_ifs at h with hlt
    cases h
    simp [put, hi, hlt]
  | _ => cases h

theorem put_child (h : v.child k = some x) : v.put k x = some v := by
  cases v with
  | object ms => simp [put, insertMember_of_lookupMember h]
  | array items =>
    obtain ⟨i, hi, h⟩ := Option.bind_eq_some_iff.mp h
    obtain ⟨hlt, hx⟩ := List.getElem?_eq_some_iff.mp h
    simp [put, hi, hlt, ← hx]
  | _ => cases h

theorem put_of_child (h : v.child k = some x) (y : Value) : ∃ v', v.put k y = some v' := by
  cases v with
  | object ms => exact ⟨_, rfl⟩
  | array items =>
    obtain ⟨i, hi, h⟩ := Option.bind_eq_some_iff.mp h
    obtain ⟨hlt, -⟩ := List.getElem?_eq_some_iff.mp h
    exact ⟨_, by rw [put, hi, Option.bind_some, if_pos hlt]⟩
  | _ => cases h

/-- The value at the end of a path. -/
def get : Value → List Text → Option Value
  | v, [] => some v
  | v, k :: ks => (v.child k).bind fun c => c.get ks

/-- Put `x` at the end of a path that is there. -/
def set : Value → List Text → Value → Option Value
  | _, [], x => some x
  | v, k :: ks, x => (v.child k).bind fun c => (c.set ks x).bind fun c' => v.put k c'

theorem get_append (pre ks : List Text) (v : Value) :
    v.get (pre ++ ks) = (v.get pre).bind fun c => c.get ks := by
  induction pre generalizing v with
  | nil => rfl
  | cons k pre ih =>
    simp only [List.cons_append, get, Option.bind_assoc]
    congr 1
    funext c
    exact ih c

theorem get_set {ks : List Text} (h : v.set ks x = some v') : v'.get ks = some x := by
  induction ks generalizing v v' with
  | nil =>
    cases h
    rfl
  | cons k ks ih =>
    obtain ⟨c, hc, h⟩ := Option.bind_eq_some_iff.mp h
    obtain ⟨c', hc', h⟩ := Option.bind_eq_some_iff.mp h
    rw [get, child_put h, Option.bind_some, ih hc']

theorem set_set {ks : List Text} (h : v.set ks x = some v') (y : Value) :
    v'.set ks y = v.set ks y := by
  induction ks generalizing v v' with
  | nil => rfl
  | cons k ks ih =>
    obtain ⟨c, hc, h⟩ := Option.bind_eq_some_iff.mp h
    obtain ⟨c', hc', h⟩ := Option.bind_eq_some_iff.mp h
    rw [set, set, child_put h, hc, Option.bind_some, Option.bind_some, ih hc']
    congr 1
    funext z
    exact put_put h z

theorem set_get {ks : List Text} (h : v.get ks = some x) : v.set ks x = some v := by
  induction ks generalizing v with
  | nil =>
    cases h
    rfl
  | cons k ks ih =>
    obtain ⟨c, hc, h⟩ := Option.bind_eq_some_iff.mp h
    rw [set, hc, Option.bind_some, ih h, Option.bind_some, put_child hc]

theorem set_of_get {ks : List Text} (h : v.get ks = some x) (y : Value) :
    ∃ v', v.set ks y = some v' := by
  induction ks generalizing v with
  | nil => exact ⟨y, rfl⟩
  | cons k ks ih =>
    obtain ⟨c, hc, h⟩ := Option.bind_eq_some_iff.mp h
    obtain ⟨c', hc'⟩ := ih h
    obtain ⟨v', hv'⟩ := put_of_child hc c'
    exact ⟨v', by rw [set, hc, Option.bind_some, hc', Option.bind_some, hv']⟩

/-! ### Objects -/

def IsObject (v : Value) : Prop := ∃ ms, v = .object ms

/-- An object with the member `k` set. -/
def setMember (v : Value) (k : Text) (x : Value) : Value :=
  match v with
  | .object ms => .object (insertMember k x ms)
  | v => v

def keys : Value → List Text
  | .object ms => ms.map Prod.fst
  | _ => []

/-- Only tokens that are no index lead from a value to a member of an object. -/
theorem isObject_of_child (hk : parseIndex k = none) (h : v.child k = some x) : v.IsObject := by
  cases v with
  | object ms => exact ⟨ms, rfl⟩
  | array items =>
    rw [child, hk] at h
    cases h
  | _ => cases h

theorem IsObject.setMember (h : v.IsObject) (k : Text) (x : Value) :
    (v.setMember k x).IsObject := by
  obtain ⟨ms, rfl⟩ := h
  exact ⟨_, rfl⟩

theorem IsObject.put (h : v.IsObject) (k : Text) (x : Value) :
    v.put k x = some (v.setMember k x) := by
  obtain ⟨ms, rfl⟩ := h
  rfl

theorem IsObject.child_setMember (h : v.IsObject) (k : Text) (x : Value) :
    (v.setMember k x).child k = some x := child_put (h.put k x)

theorem child_setMember_ne {j : Text} (h : j ≠ k) (v x : Value) :
    (v.setMember k x).child j = v.child j := by
  cases v with
  | object ms => exact lookupMember_insertMember_ne h x ms
  | _ => rfl

theorem setMember_of_child (h : v.child k = some x) : v.setMember k x = v := by
  cases v with
  | object ms => simp [setMember, insertMember_of_lookupMember h]
  | _ => rfl

/-- The members of `v'` are those of `v`, in their order, but for the ones with a key in `ks`,
which can have another value or be new. -/
structure AgreesOff (ks : List Text) (v v' : Value) : Prop where
  members : ∀ k, k ∉ ks → v'.child k = v.child k
  order : ∃ new, v'.keys = v.keys ++ new ∧ new ⊆ ks

theorem AgreesOff.refl (ks : List Text) (v : Value) : AgreesOff ks v v :=
  ⟨fun _ _ => rfl, [], (List.append_nil _).symm, List.nil_subset _⟩

theorem AgreesOff.trans {ks : List Text} {w : Value} (h : AgreesOff ks v v')
    (h' : AgreesOff ks v' w) : AgreesOff ks v w := by
  obtain ⟨new, hkeys, hnew⟩ := h.order
  obtain ⟨new', hkeys', hnew'⟩ := h'.order
  refine ⟨fun k hk => (h'.members k hk).trans (h.members k hk), new ++ new', ?_, ?_⟩
  · rw [hkeys', hkeys, List.append_assoc]
  · exact List.append_subset.mpr ⟨hnew, hnew'⟩

theorem agreesOff_setMember {ks : List Text} (hk : k ∈ ks) (v x : Value) :
    AgreesOff ks v (v.setMember k x) := by
  refine ⟨fun j hj => ?_, ?_⟩
  · have hne : j ≠ k := fun hjk => hj (hjk ▸ hk)
    exact child_setMember_ne hne v x
  cases v with
  | object ms =>
    obtain ⟨new, hkeys, hnew⟩ := keys_insertMember k x ms
    exact ⟨new, hkeys, fun j hj => by rw [List.mem_singleton.mp (hnew hj)]; exact hk⟩
  | _ => exact ⟨[], rfl, List.nil_subset _⟩

end Value

/-! ### Pointers -/

/-- The pieces of a text between the characters `c`. -/
def split (c : Char) : Text → List Text
  | [] => [[]]
  | x :: xs =>
    if x = c then [] :: split c xs
    else
      match split c xs with
      | [] => [[x]]
      | t :: ts => (x :: t) :: ts

/-- Replace the pair `p q` by `r`, from left to right. -/
def replacePair (p q r : Char) : Text → Text
  | x :: y :: rest =>
    if x = p ∧ y = q then r :: replacePair p q r rest else x :: replacePair p q r (y :: rest)
  | t => t

def unescape (t : Text) : Text := replacePair '~' '0' '~' (replacePair '~' '1' '/' t)

/-- The tokens of a pointer. -/
def tokens : Text → Option (List Text)
  | [] => some []
  | c :: rest => if c = '/' then some ((split '/' rest).map unescape) else none

/-- `Value::pointer`. -/
def Value.pointer (v : Value) (path : Text) : Option Value := (tokens path).bind v.get

theorem split_ne_nil (c : Char) (t : Text) : split c t ≠ [] := by
  cases t with
  | nil => exact List.cons_ne_nil _ _
  | cons x xs =>
    unfold split
    split_ifs with h
    · exact List.cons_ne_nil _ _
    · cases split c xs <;> exact List.cons_ne_nil _ _

theorem split_append (c : Char) (a b : Text) : split c (a ++ c :: b) = split c a ++ split c b := by
  induction a with
  | nil => rw [List.nil_append, split.eq_2, if_pos rfl, split, List.singleton_append]
  | cons x a ih =>
    rw [List.cons_append, split, split, ih]
    split_ifs with h
    · rfl
    · cases hs : split c a with
      | nil => exact absurd hs (split_ne_nil c a)
      | cons t ts => rfl

theorem split_of_not_mem {c : Char} {t : Text} (h : c ∉ t) : split c t = [t] := by
  induction t with
  | nil => rfl
  | cons x t ih =>
    obtain ⟨hx, ht⟩ := not_or.mp (List.mem_cons.not.mp h)
    rw [split, if_neg (Ne.symm hx), ih ht]

theorem replacePair_of_not_mem {p q r : Char} {t : Text} (h : p ∉ t) : replacePair p q r t = t := by
  induction t with
  | nil => rfl
  | cons x t ih =>
    obtain ⟨hx, ht⟩ := not_or.mp (List.mem_cons.not.mp h)
    cases t with
    | nil => rfl
    | cons y t =>
      have hne : ¬ (x = p ∧ y = q) := fun hxy => hx hxy.1.symm
      rw [replacePair, if_neg hne, ih ht]

theorem unescape_of_not_mem {t : Text} (h : '~' ∉ t) : unescape t = t := by
  rw [unescape, replacePair_of_not_mem h, replacePair_of_not_mem h]

/-- A token put behind a pointer is the last of its tokens. -/
theorem tokens_append {p t : Text} {ks : List Text} (hp : p ≠ []) (h : tokens p = some ks)
    (ht : '/' ∉ t) : tokens (p ++ '/' :: t) = some (ks ++ [unescape t]) := by
  cases p with
  | nil => exact absurd rfl hp
  | cons c p =>
    rw [tokens] at h
    split_ifs at h with hc
    rw [List.cons_append, tokens, if_pos hc, split_append, List.map_append, split_of_not_mem ht,
      List.map_singleton, Option.some.inj h]

theorem tokens_append_index {p : Text} {ks : List Text} (hp : p ≠ []) (h : tokens p = some ks)
    (n : ℕ) : tokens (p ++ '/' :: Nat.toDigits 10 n) = some (ks ++ [Nat.toDigits 10 n]) := by
  rw [tokens_append hp h (not_mem_toDigits (by decide) n),
    unescape_of_not_mem (not_mem_toDigits (by decide) n)]

/-- The token `-` stands for the place behind the items of an array. -/
theorem tokens_append_dash {p : Text} {ks : List Text} (hp : p ≠ []) (h : tokens p = some ks) :
    tokens (p ++ "/-".toList) = some (ks ++ [['-']]) := by
  have hdash : "/-".toList = '/' :: ['-'] := rfl
  rw [hdash, tokens_append hp h (by decide), unescape_of_not_mem (by decide)]

theorem Value.pointer_eq {v : Value} {path : Text} (ks : List Text) (h : tokens path = some ks) :
    v.pointer path = v.get ks := by
  rw [Value.pointer, h, Option.bind_some]

theorem Value.get_singleton (v : Value) (k : Text) : v.get [k] = v.child k := by
  rw [Value.get]
  cases v.child k <;> rfl

theorem Value.pointer_child {v m : Value} {path outer member : Text} (hm : v.child outer = some m)
    (h : tokens path = some [outer, member]) : v.pointer path = m.child member := by
  rw [pointer_eq _ h, Value.get, hm, Option.bind_some, get_singleton]

/-! ### Patches -/

inductive Kind where
  | add
  | replace
  deriving DecidableEq

structure Op where
  kind : Kind
  path : Text
  value : Value

/-- `add` at the last token of a path. -/
def Value.add (v : Value) (k : Text) (x : Value) : Option Value :=
  match v with
  | .object ms => some (.object (insertMember k x ms))
  | .array items =>
    if k = ['-'] then some (.array (items ++ [x]))
    else (parseIndex k).bind fun i =>
      if i ≤ items.length then some (.array (items.insertIdx i x)) else none
  | _ => none

/-- An operation at the last token of a path; only what is there can be replaced. -/
def Value.edit (v : Value) (kind : Kind) (k : Text) (x : Value) : Option Value :=
  match kind with
  | .add => v.add k x
  | .replace => (v.child k).bind fun _ => v.put k x

def applyAt (kind : Kind) : List Text → Value → Value → Option Value
  | [], x, _ => some x
  | [k], x, v => v.edit kind k x
  | k :: k' :: ks, x, v =>
    (v.child k).bind fun c => (applyAt kind (k' :: ks) x c).bind fun c' => v.put k c'

def Op.apply (o : Op) (v : Value) : Option Value :=
  (tokens o.path).bind fun ks => applyAt o.kind ks o.value v

/-- The operations one after the other; the first that fails is the end of it. -/
def applyPatch : List Op → Value → Option Value
  | [], v => some v
  | o :: ops, v => (o.apply v).bind (applyPatch ops)

theorem Value.IsObject.add {v : Value} (h : v.IsObject) (k : Text) (x : Value) :
    v.add k x = some (v.setMember k x) := by
  obtain ⟨ms, rfl⟩ := h
  rfl

theorem applyPatch_append (ops ops' : List Op) (v : Value) :
    applyPatch (ops ++ ops') v = (applyPatch ops v).bind (applyPatch ops') := by
  induction ops generalizing v with
  | nil => rfl
  | cons o ops ih =>
    simp only [List.cons_append, applyPatch, Option.bind_assoc]
    congr 1
    funext w
    exact ih w

theorem applyAt_append (kind : Kind) (pre : List Text) {ks : List Text} (hks : ks ≠ [])
    (x v : Value) : applyAt kind (pre ++ ks) x v =
      (v.get pre).bind fun c => (applyAt kind ks x c).bind fun c' => v.set pre c' := by
  induction pre generalizing v with
  | nil => simp [Value.get, Value.set]
  | cons k pre ih =>
    have hne := List.append_ne_nil_of_right_ne_nil pre hks
    obtain ⟨k', rest, hrest⟩ := List.exists_cons_of_ne_nil hne
    rw [List.cons_append, hrest, applyAt, ← hrest, Value.get, Option.bind_assoc]
    cases hc : v.child k with
    | none => rfl
    | some c =>
      rw [Option.bind_some, Option.bind_some, ih c]
      simp only [Value.set, hc, Option.bind_some, Option.bind_assoc]

/-- Operations below the place `pre` take the value there from the one to the other. -/
inductive Under (pre : List Text) : List Op → Value → Value → Prop
  | nil (c : Value) : Under pre [] c c
  | cons {o : Op} {ks : List Text} {ops : List Op} {c c₁ c₂ : Value}
      (hpath : tokens o.path = some (pre ++ ks)) (hne : ks ≠ [])
      (happly : applyAt o.kind ks o.value c = some c₁) (h : Under pre ops c₁ c₂) :
      Under pre (o :: ops) c c₂

namespace Under
variable {pre : List Text} {ops ops' : List Op} {c c₁ c₂ v : Value}

theorem single {o : Op} {ks : List Text} (hpath : tokens o.path = some (pre ++ ks)) (hne : ks ≠ [])
    (happly : applyAt o.kind ks o.value c = some c₁) : Under pre [o] c c₁ :=
  .cons hpath hne happly (.nil c₁)

theorem append (h : Under pre ops c c₁) (h' : Under pre ops' c₁ c₂) :
    Under pre (ops ++ ops') c c₂ := by
  induction h with
  | nil c => exact h'
  | cons hpath hne happly _ ih => exact .cons hpath hne happly (ih h')

/-- Operations further down, seen from above. -/
theorem lift {low : List Text} (h : Under (pre ++ low) ops c c₁) (hv : v.get low = some c) :
    ∃ v', v.set low c₁ = some v' ∧ Under pre ops v v' := by
  induction h generalizing v with
  | nil c => exact ⟨v, Value.set_get hv, .nil v⟩
  | @cons o ks ops c c₁ c₂ hpath hne happly _ ih =>
    obtain ⟨v₁, hv₁⟩ := Value.set_of_get hv c₁
    obtain ⟨v₂, hv₂, hrest⟩ := ih (Value.get_set hv₁)
    rw [List.append_assoc] at hpath
    refine ⟨v₂, (Value.set_set hv₁ c₂).symm.trans hv₂, .cons hpath ?_ ?_ hrest⟩
    · exact List.append_ne_nil_of_right_ne_nil low hne
    · rw [applyAt_append o.kind low hne, hv, Option.bind_some, happly, Option.bind_some, hv₁]

/-- Operations below a place change the document there and nowhere else. -/
theorem applyPatch (h : Under pre ops c c₁) (hv : v.get pre = some c) :
    ∃ v', v.set pre c₁ = some v' ∧ Json.applyPatch ops v = some v' := by
  have hroot : Under ([] ++ pre) ops c c₁ := h
  obtain ⟨v', hset, hrun⟩ := hroot.lift hv
  refine ⟨v', hset, ?_⟩
  clear h hv hset hroot
  induction hrun with
  | nil c => rfl
  | cons hpath _ happly _ ih =>
    rw [Json.applyPatch, Op.apply, hpath, Option.bind_some, List.nil_append, happly,
      Option.bind_some, ih]

end Under

end Json

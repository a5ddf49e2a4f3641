import SyntriassOverlay.Webhook

/-!
# What the webhook's patch does to a Pod

The operations are followed on the parts of the Pod they are below: the volume and the init
container in its `spec`, mount and variable in its first container, label and annotation in
its `metadata`.
-/

namespace SyntriassOverlay.Webhook
open Json

/-! ### Lists of named items -/

/-- The items of an array; what is absent, `null` or no array has none. -/
def elements (o : Option Value) : List Value := (o.bind asArray).getD []

theorem asArray_eq_some {v : Value} {items : List Value} (h : asArray v = some items) :
    v = .array items := by
  cases v with
  | array l => exact congrArg _ (Option.some.inj h)
  | _ => cases h

theorem bind_asArray {o : Option Value} {items : List Value} (h : o.bind asArray = some items) :
    o = some (.array items) := by
  obtain ⟨v, rfl, hv⟩ := Option.bind_eq_some_iff.mp h
  rw [asArray_eq_some hv]

theorem hasNamedItem_iff {items : List Value} {name : Text} :
    hasNamedItem items name = true ↔ ∃ item ∈ items, isNamed name item = true := by
  rw [hasNamedItem, namedItemIndex, List.findIdx?_isSome, List.any_eq_true]

/-- The index of an item splits the list before it. -/
theorem namedItemIndex_eq_some {items : List Value} {name : Text} {i : ℕ}
    (h : namedItemIndex items name = some i) : ∃ front item back,
      items = front ++ item :: back ∧ front.length = i ∧ isNamed name item = true ∧
        ∀ x ∈ front, isNamed name x = false := by
  obtain ⟨hi, hitem, hbefore⟩ := List.findIdx?_eq_some_iff_getElem.mp h
  refine ⟨items.take i, items[i], items.drop (i + 1), ?_, ?_, hitem, fun x hx => ?_⟩
  · rw [List.getElem_cons_drop, List.take_append_drop]
  · exact List.length_take_of_le (Nat.le_of_lt hi)
  · obtain ⟨j, hj, rfl⟩ := List.getElem_of_mem hx
    rw [List.getElem_take]
    exact Bool.eq_false_iff.mpr (hbefore j (by rw [List.length_take] at hj; omega))

theorem namedItemIndex_append {name : Text} {front back : List Value} {item : Value}
    (hfront : ∀ x ∈ front, isNamed name x = false) (hitem : isNamed name item = true) :
    namedItemIndex (front ++ item :: back) name = some front.length := by
  have hnone : front.findIdx? (isNamed name) = none := List.findIdx?_eq_none_iff.mpr hfront
  rw [namedItemIndex, List.findIdx?_append, hnone, List.findIdx?_cons, if_pos hitem]
  simp

/-- `item` added to the list in the member `key`, unless one there has the name. -/
def addNamed (key name : Text) (item v : Value) : Value :=
  if hasNamedItem (elements (v.child key)) name then v
  else v.setMember key (.array (elements (v.child key) ++ [item]))

section
variable {pre : List Text} {key path name : Text} {item v : Value}

theorem elements_of_none {o : Option Value} (h : o.bind asArray = none) : elements o = [] := by
  rw [elements, h]
  rfl

theorem elements_of_some {o : Option Value} {items : List Value} (h : o.bind asArray = some items) :
    elements o = items := by
  rw [elements, h]
  rfl

theorem applyAt_append_item {items : List Value} (hv : v.IsObject)
    (h : v.child key = some (.array items)) (item : Value) :
    applyAt .add [key, ['-']] item v = some (v.setMember key (.array (items ++ [item]))) := by
  rw [applyAt, h, Option.bind_some, applyAt, Value.edit]
  exact hv.put key _

theorem pushNamed_under (hpath : path ≠ []) (htok : tokens path = some (pre ++ [key]))
    (hv : v.IsObject) :
    Under pre (pushNamed (v.child key) path name item) v (addNamed key name item v) := by
  unfold pushNamed addNamed
  cases hitems : (v.child key).bind asArray with
  | none =>
    rw [elements_of_none hitems]
    refine .single htok (List.cons_ne_nil _ _) ?_
    exact hv.add key _
  | some items =>
    rw [elements_of_some hitems]
    dsimp only
    split_ifs with hnamed
    · exact .nil v
    · have htail : tokens (path ++ "/-".toList) = some (pre ++ [key, ['-']]) := by
        rw [tokens_append_dash hpath htok, List.append_assoc]
        rfl
      exact .single htail (List.cons_ne_nil _ _)
        (applyAt_append_item hv (bind_asArray hitems) item)

/-- How the list in a member changes. -/
def ItemAdded (name : Text) (item : Value) (old new : Option Value) : Prop :=
  hasNamedItem (elements old) name = true ∧ new = old ∨
  hasNamedItem (elements old) name = false ∧ new = some (.array (elements old ++ [item]))

theorem addNamed_isObject (hv : v.IsObject) : (addNamed key name item v).IsObject := by
  unfold addNamed
  split_ifs
  · exact hv
  · exact hv.setMember _ _

theorem addNamed_child (hv : v.IsObject) :
    ItemAdded name item (v.child key) ((addNamed key name item v).child key) := by
  unfold addNamed
  split_ifs with hnamed
  · exact .inl ⟨hnamed, rfl⟩
  · exact .inr ⟨Bool.eq_false_iff.mpr hnamed, hv.child_setMember _ _⟩

theorem addNamed_child_ne {j : Text} (h : j ≠ key) :
    (addNamed key name item v).child j = v.child j := by
  unfold addNamed
  split_ifs
  · rfl
  · exact Value.child_setMember_ne h _ _

theorem addNamed_agreesOff {ks : List Text} (hk : key ∈ ks) :
    Value.AgreesOff ks v (addNamed key name item v) := by
  unfold addNamed
  split_ifs
  · exact .refl ks v
  · exact Value.agreesOff_setMember hk _ _

theorem addNamed_of_named (h : hasNamedItem (elements (v.child key)) name = true) :
    addNamed key name item v = v := by
  rw [addNamed, if_pos h]

theorem ItemAdded.named {old new : Option Value} (h : ItemAdded name item old new)
    (hitem : isNamed name item = true) : hasNamedItem (elements new) name = true := by
  rcases h with ⟨hnamed, rfl⟩ | ⟨-, rfl⟩
  · exact hnamed
  · exact hasNamedItem_iff.mpr ⟨item, List.mem_append_right _ List.mem_cons_self, hitem⟩

end

/-! ### The variable -/

def isPreload : Value → Bool := isNamed ldPreload

/-- The list with the first entry for the variable replaced, or with one behind the others. -/
def setPreload (envs : List Value) : List Value :=
  match namedItemIndex envs ldPreload with
  | some index => envs.set index preloadEntry
  | none => envs ++ [preloadEntry]

/-- A container that preloads the library. -/
def preload (c : Value) : Value :=
  c.setMember "env".toList (.array (setPreload (elements (c.child "env".toList))))

/-- How the list of variables changes. -/
inductive PreloadSet : List Value → List Value → Prop
  | replaced {front back : List Value} {e : Value} (hfront : ∀ x ∈ front, isPreload x = false)
      (he : isPreload e = true) : PreloadSet (front ++ e :: back) (front ++ preloadEntry :: back)
  | added {envs : List Value} (h : ∀ x ∈ envs, isPreload x = false) :
      PreloadSet envs (envs ++ [preloadEntry])

theorem preloadEntry_isPreload : isPreload preloadEntry = true := by decide

theorem setPreload_append {front back : List Value} {e : Value}
    (hfront : ∀ x ∈ front, isPreload x = false) (he : isPreload e = true) :
    setPreload (front ++ e :: back) = front ++ preloadEntry :: back := by
  rw [setPreload, namedItemIndex_append hfront he]
  simp

theorem setPreload_spec (envs : List Value) : PreloadSet envs (setPreload envs) := by
  cases hindex : namedItemIndex envs ldPreload with
  | none =>
    rw [setPreload, hindex]
    exact .added fun x hx => List.findIdx?_eq_none_iff.mp hindex x hx
  | some i =>
    obtain ⟨front, e, back, rfl, -, he, hfront⟩ := namedItemIndex_eq_some hindex
    rw [setPreload_append hfront he]
    exact .replaced hfront he

theorem PreloadSet.fixed {envs envs' : List Value} (h : PreloadSet envs envs') :
    setPreload envs' = envs' := by
  cases h with
  | replaced hfront he => exact setPreload_append hfront preloadEntry_isPreload
  | added h => exact setPreload_append h preloadEntry_isPreload

section
variable {pre : List Text} {path : Text} {c : Value}

theorem pushPreload_under (hpath : path ≠ []) (htok : tokens path = some (pre ++ ["env".toList]))
    (hc : c.IsObject) : Under pre (pushPreload (c.child "env".toList) path) c (preload c) := by
  unfold pushPreload preload
  cases henvs : (c.child "env".toList).bind asArray with
  | none =>
    rw [elements_of_none henvs]
    refine .single htok (List.cons_ne_nil _ _) ?_
    exact hc.add _ _
  | some envs =>
    have hchild := bind_asArray henvs
    rw [elements_of_some henvs]
    dsimp only
    cases hindex : namedItemIndex envs ldPreload with
    | none =>
      have htail : tokens (path ++ "/-".toList) = some (pre ++ ["env".toList, ['-']]) := by
        rw [tokens_append_dash hpath htok, List.append_assoc]
        rfl
      have hset : setPreload envs = envs ++ [preloadEntry] := by
        rw [setPreload, hindex]
      rw [hset]
      exact .single htail (List.cons_ne_nil _ _) (applyAt_append_item hc hchild preloadEntry)
    | some i =>
      have hset : setPreload envs = envs.set i preloadEntry := by
        rw [setPreload, hindex]
      obtain ⟨hi, -⟩ := List.findIdx?_eq_some_iff_getElem.mp hindex
      have htail : tokens (path ++ '/' :: Nat.toDigits 10 i) =
          some (pre ++ ["env".toList, Nat.toDigits 10 i]) := by
        rw [tokens_append_index hpath htok, List.append_assoc]
        rfl
      have hplace : (Value.array envs).child (Nat.toDigits 10 i) = some envs[i] := by
        rw [Value.child, parseIndex_toDigits, Option.bind_some, List.getElem?_eq_getElem hi]
      have hput : (Value.array envs).put (Nat.toDigits 10 i) preloadEntry =
          some (.array (envs.set i preloadEntry)) := by
        rw [Value.put, parseIndex_toDigits, Option.bind_some, if_pos hi]
      rw [hset]
      refine .single htail (List.cons_ne_nil _ _) ?_
      rw [replace, applyAt, hchild, Option.bind_some, applyAt, Value.edit, hplace,
        Option.bind_some, hput, Option.bind_some]
      exact hc.put _ _

theorem preload_child (hc : c.IsObject) : ∃ envs, (preload c).child "env".toList =
    some (.array envs) ∧ PreloadSet (elements (c.child "env".toList)) envs :=
  ⟨_, hc.child_setMember _ _, setPreload_spec _⟩

theorem preload_of_set {envs envs' : List Value} (h : c.child "env".toList = some (.array envs'))
    (hset : PreloadSet envs envs') : preload c = c := by
  have helements : elements (c.child "env".toList) = envs' := by
    rw [h]
    rfl
  rw [preload, helements, hset.fixed]
  exact Value.setMember_of_child h

end

/-! ### The overlay in a Pod -/

/-- Where the parts of a Pod are that the patch is about. -/
structure Placed (pod spec c : Value) (cs : List Value) : Prop where
  inPod : pod.child "spec".toList = some spec
  inSpec : spec.child "containers".toList = some (.array (c :: cs))

def overlayContainer (c : Value) : Value :=
  preload (addNamed "volumeMounts".toList volumeName mount c)

/-- The spec with the volume and the init container. -/
def equipped (env : Env) (spec : Value) : Value :=
  addNamed "initContainers".toList initContainerName (initContainer env)
    (addNamed "volumes".toList volumeName volume spec)

def overlaySpec (env : Env) (spec c : Value) (cs : List Value) : Value :=
  (equipped env spec).setMember "containers".toList (.array (overlayContainer c :: cs))

def overlayPod (env : Env) (pod spec c : Value) (cs : List Value) : Value :=
  pod.setMember "spec".toList (overlaySpec env spec c cs)

namespace Placed
variable {pod spec c : Value} {cs : List Value} {env : Env}

theorem pod_isObject (h : Placed pod spec c cs) : pod.IsObject :=
  Value.isObject_of_child (by decide) h.inPod

theorem spec_isObject (h : Placed pod spec c cs) : spec.IsObject :=
  Value.isObject_of_child (by decide) h.inSpec

theorem pointer_containers (h : Placed pod spec c cs) :
    pod.pointer "/spec/containers".toList = some (.array (c :: cs)) :=
  (Value.pointer_child h.inPod (by decide)).trans h.inSpec

theorem get_container {v : Value} (h : v.child "containers".toList = some (.array (c :: cs))) :
    v.get ["containers".toList, ['0']] = some c := by
  rw [Value.get, h, Option.bind_some, Value.get_singleton]
  rfl

/-- The operations that put the overlay into a Pod. -/
theorem buildPatch (h : Placed pod spec c cs) (hmode : env.kernelNative = false) :
    Webhook.buildPatch env pod = .ok
      (pushNamed (spec.child "volumes".toList) "/spec/volumes".toList volumeName volume ++
        pushNamed (spec.child "initContainers".toList) "/spec/initContainers".toList
          initContainerName (initContainer env) ++
        (pushNamed (c.child "volumeMounts".toList) "/spec/containers/0/volumeMounts".toList
            volumeName mount ++
          pushPreload (c.child "env".toList) "/spec/containers/0/env".toList)) := by
  have hvolumes : pod.pointer "/spec/volumes".toList = spec.child "volumes".toList :=
    Value.pointer_child h.inPod (by decide)
  have hinits : pod.pointer "/spec/initContainers".toList = spec.child "initContainers".toList :=
    Value.pointer_child h.inPod (by decide)
  have hzero : "/spec/containers/".toList ++ Nat.toDigits 10 0 = "/spec/containers/0".toList := by
    decide
  have hfirst : pod.pointer "/spec/containers/0".toList = some c := by
    rw [Value.pointer_eq ["spec".toList, "containers".toList, ['0']] (by decide), Value.get,
      h.inPod, Option.bind_some, get_container h.inSpec]
  have hmounts : c.pointer "/volumeMounts".toList = c.child "volumeMounts".toList := by
    rw [Value.pointer_eq ["volumeMounts".toList] (by decide), Value.get_singleton]
  have henv : c.pointer "/env".toList = c.child "env".toList := by
    rw [Value.pointer_eq ["env".toList] (by decide), Value.get_singleton]
  rw [Webhook.buildPatch, h.pointer_containers, Option.bind_some, asArray]
  simp only [List.isEmpty_cons, Bool.false_eq_true, if_false, hmode]
  rw [pushTargetContainerPatch, hzero, hfirst]
  simp only [hmounts, henv]
  rw [pushVolumePatch, pushInitContainerPatch, hvolumes, hinits]
  rfl

theorem equipped_isObject (h : Placed pod spec c cs) : (equipped env spec).IsObject :=
  addNamed_isObject (addNamed_isObject h.spec_isObject)

theorem equipped_containers (h : Placed pod spec c cs) :
    (equipped env spec).child "containers".toList = some (.array (c :: cs)) := by
  rw [equipped, addNamed_child_ne (by decide), addNamed_child_ne (by decide), h.inSpec]

/-- The operations on the volume and the init container. -/
theorem equipped_under (h : Placed pod spec c cs) :
    Under ["spec".toList]
      (pushNamed (spec.child "volumes".toList) "/spec/volumes".toList volumeName volume ++
        pushNamed (spec.child "initContainers".toList) "/spec/initContainers".toList
          initContainerName (initContainer env)) spec (equipped env spec) := by
  have hspec := h.spec_isObject
  have hsame : (addNamed "volumes".toList volumeName volume spec).child "initContainers".toList =
      spec.child "initContainers".toList := addNamed_child_ne (by decide)
  refine (pushNamed_under (by decide) (by decide) hspec).append ?_
  rw [← hsame]
  exact pushNamed_under (by decide) (by decide) (addNamed_isObject hspec)

/-- The operations on the first container, which has to be an object. -/
theorem container_under (hc : c.IsObject) :
    Under (["spec".toList] ++ ["containers".toList, ['0']])
      (pushNamed (c.child "volumeMounts".toList) "/spec/containers/0/volumeMounts".toList
          volumeName mount ++
        pushPreload (c.child "env".toList) "/spec/containers/0/env".toList) c
      (overlayContainer c) := by
  have hsame : (addNamed "volumeMounts".toList volumeName mount c).child "env".toList =
      c.child "env".toList := addNamed_child_ne (by decide)
  refine (pushNamed_under (by decide) (by decide) hc).append ?_
  rw [← hsame]
  exact pushPreload_under (by decide) (by decide) (addNamed_isObject hc)

theorem set_container {v c' : Value} (hv : v.IsObject)
    (h : v.child "containers".toList = some (.array (c :: cs))) :
    v.set ["containers".toList, ['0']] c' =
      some (v.setMember "containers".toList (.array (c' :: cs))) := by
  have hput : (Value.array (c :: cs)).set [['0']] c' = some (.array (c' :: cs)) := rfl
  rw [Value.set, h, Option.bind_some, hput, Option.bind_some, hv.put]

/-- The patch puts the overlay into the Pod. -/
theorem applyPatch (h : Placed pod spec c cs) (hc : c.IsObject)
    (hmode : env.kernelNative = false) : ∃ ops, Webhook.buildPatch env pod = .ok ops ∧
      Json.applyPatch ops pod = some (overlayPod env pod spec c cs) := by
  have hobj : (equipped env spec).IsObject := h.equipped_isObject
  have hall : (equipped env spec).child "containers".toList = some (.array (c :: cs)) :=
    h.equipped_containers
  obtain ⟨spec', hset, hlow⟩ := Under.lift (container_under hc) (get_container hall)
  rw [set_container hobj hall] at hset
  cases hset
  obtain ⟨pod', hset, hrun⟩ := (h.equipped_under.append hlow).applyPatch
    ((pod.get_singleton _).trans h.inPod)
  rw [Value.set, h.inPod, Option.bind_some, Value.set, Option.bind_some, h.pod_isObject.put]
    at hset
  cases hset
  exact ⟨_, h.buildPatch hmode, hrun⟩

end Placed

/-- `pod'` is `pod` with the overlay in it and is the same otherwise: the other members of the
Pod, of its spec and of its first container, the other containers and the items that were in
its lists are as they were and in their order. -/
inductive Overlaid (env : Env) : Value → Value → Prop
  | intro {pod pod' spec spec' c c' : Value} {cs : List Value}
      (placed : Placed pod spec c cs) (placed' : Placed pod' spec' c' cs)
      (hpod : Value.AgreesOff ["spec".toList] pod pod')
      (hspec : Value.AgreesOff ["volumes".toList, "initContainers".toList, "containers".toList]
        spec spec')
      (hvolumes : ItemAdded volumeName volume (spec.child "volumes".toList)
        (spec'.child "volumes".toList))
      (hinits : ItemAdded initContainerName (initContainer env)
        (spec.child "initContainers".toList) (spec'.child "initContainers".toList))
      (hc : Value.AgreesOff ["volumeMounts".toList, "env".toList] c c')
      (hmounts : ItemAdded volumeName mount (c.child "volumeMounts".toList)
        (c'.child "volumeMounts".toList))
      {envs : List Value} (henv : c'.child "env".toList = some (.array envs))
      (hset : PreloadSet (elements (c.child "env".toList)) envs) : Overlaid env pod pod'

section
variable {pod pod' spec c : Value} {cs : List Value} {env : Env}

theorem Placed.overlaid (h : Placed pod spec c cs) (hobj : c.IsObject) :
    Overlaid env pod (overlayPod env pod spec c cs) := by
  have hequipped : (equipped env spec).IsObject := h.equipped_isObject
  have hmounted : (addNamed "volumeMounts".toList volumeName mount c).IsObject :=
    addNamed_isObject hobj
  obtain ⟨envs, henvs, hset⟩ := preload_child hmounted
  rw [addNamed_child_ne (by decide)] at hset
  refine .intro h ⟨h.pod_isObject.child_setMember _ _, hequipped.child_setMember _ _⟩
    (Value.agreesOff_setMember (by decide) _ _) ?_ ?_ ?_ ?_ ?_ henvs hset
  · exact ((addNamed_agreesOff (by decide)).trans (addNamed_agreesOff (by decide))).trans
      (Value.agreesOff_setMember (by decide) _ _)
  · rw [overlaySpec, Value.child_setMember_ne (by decide), equipped, addNamed_child_ne (by decide)]
    exact addNamed_child h.spec_isObject
  · have hsame : (addNamed "volumes".toList volumeName volume spec).child
        "initContainers".toList = spec.child "initContainers".toList :=
      addNamed_child_ne (by decide)
    rw [overlaySpec, Value.child_setMember_ne (by decide), ← hsame]
    exact addNamed_child (addNamed_isObject h.spec_isObject)
  · exact (addNamed_agreesOff (by decide)).trans (Value.agreesOff_setMember (by decide) _ _)
  · rw [overlayContainer, preload, Value.child_setMember_ne (by decide)]
    exact addNamed_child hobj

theorem volume_named : isNamed volumeName volume = true := by decide

theorem initContainer_named (env : Env) : isNamed initContainerName (initContainer env) = true := by
  rfl

theorem mount_named : isNamed volumeName mount = true := by decide

/-- A Pod with the overlay in it stays as it is. -/
theorem Overlaid.again (h : Overlaid env pod pod') : ∃ spec' c' cs, Placed pod' spec' c' cs ∧
    c'.IsObject ∧ overlayPod env pod' spec' c' cs = pod' := by
  cases h with
  | @intro spec spec' c c' cs _ placed' _ _ hvolumes hinits _ hmounts envs henv hset =>
    have hobj : c'.IsObject := Value.isObject_of_child (by decide) henv
    have hequipped : equipped env spec' = spec' := by
      rw [equipped, addNamed_of_named (hvolumes.named volume_named),
        addNamed_of_named (hinits.named (initContainer_named env))]
    have hcontainer : overlayContainer c' = c' := by
      rw [overlayContainer, addNamed_of_named (hmounts.named mount_named),
        preload_of_set henv hset]
    refine ⟨spec', c', cs, placed', hobj, ?_⟩
    rw [overlayPod, overlaySpec, hequipped, hcontainer,
      Value.setMember_of_child placed'.inSpec, Value.setMember_of_child placed'.inPod]

end

/-! ### Label and annotation -/

/-- The fields of an object; what is absent, `null` or no object has none. -/
def fieldsOf (o : Option Value) : Value := (o.bind asObject).getD (.object [])

/-- The metadata with the field `key` of the member `member` set. -/
def setField (member key value : Text) (m : Value) : Value :=
  m.setMember member ((fieldsOf (m.child member)).setMember key (.string value))

/-- How an object of fields changes. -/
def FieldSet (key value : Text) (old new : Option Value) : Prop :=
  ∃ fields, new = some fields ∧ Value.AgreesOff [key] (fieldsOf old) fields ∧
    fields.child key = some (.string value)

theorem bind_asObject {o : Option Value} {fields : Value} (h : o.bind asObject = some fields) :
    o = some fields ∧ fields.IsObject := by
  obtain ⟨v, rfl, hv⟩ := Option.bind_eq_some_iff.mp h
  cases v with
  | object ms =>
    cases hv
    exact ⟨rfl, ms, rfl⟩
  | _ => cases hv

theorem bind_asStr {o : Option Value} {s : Text} (h : o.bind asStr = some s) :
    o = some (.string s) := by
  obtain ⟨v, rfl, hv⟩ := Option.bind_eq_some_iff.mp h
  cases v with
  | string t =>
    cases hv
    rfl
  | _ => cases hv

theorem fieldsOf_isObject (o : Option Value) : (fieldsOf o).IsObject := by
  unfold fieldsOf
  cases h : o.bind asObject with
  | none => exact ⟨[], rfl⟩
  | some fields => exact (bind_asObject h).2

section
variable {pod m : Value} {member key value path : Text} {pre : List Text}

theorem setField_isObject (hm : m.IsObject) : (setField member key value m).IsObject :=
  hm.setMember _ _

theorem setField_child (hm : m.IsObject) :
    FieldSet key value (m.child member) ((setField member key value m).child member) :=
  ⟨_, hm.child_setMember _ _, Value.agreesOff_setMember List.mem_cons_self _ _,
    (fieldsOf_isObject _).child_setMember _ _⟩

theorem setField_child_ne {j : Text} (h : j ≠ member) :
    (setField member key value m).child j = m.child j := Value.child_setMember_ne h _ _

theorem pushMetadataField_under (hfound : pod.pointer path = m.child member)
    (hpath : path ≠ []) (htok : tokens path = some (pre ++ [member])) (hslash : '/' ∉ escape key)
    (hkey : unescape (escape key) = key) (hm : m.IsObject) :
    Under pre (pushMetadataField pod path key value) m (setField member key value m) := by
  have htail : tokens (path ++ '/' :: escape key) = some (pre ++ [member, key]) := by
    rw [tokens_append hpath htok hslash, hkey, List.append_assoc]
    rfl
  unfold pushMetadataField setField fieldsOf
  rw [hfound]
  cases hfields : (m.child member).bind asObject with
  | none =>
    refine .single htok (List.cons_ne_nil _ _) ?_
    exact hm.add member _
  | some fields =>
    obtain ⟨hchild, hobj⟩ := bind_asObject hfields
    dsimp only [Option.getD_some]
    split_ifs with hsame hthere
    · rw [Value.setMember_of_child (bind_asStr hsame), Value.setMember_of_child hchild]
      exact .nil m
    · obtain ⟨old, hold⟩ := Option.isSome_iff_exists.mp hthere
      refine .single htail (List.cons_ne_nil _ _) ?_
      rw [replace, applyAt, hchild, Option.bind_some, applyAt, Value.edit, hold, Option.bind_some,
        hobj.put, Option.bind_some, hm.put]
    · refine .single htail (List.cons_ne_nil _ _) ?_
      rw [add, applyAt, hchild, Option.bind_some, applyAt, Value.edit, hobj.add,
        Option.bind_some, hm.put]

/-- A field that is set needs no operation. -/
theorem pushMetadataField_of_set {old : Option Value} (hindex : parseIndex key = none)
    (h : FieldSet key value old (pod.pointer path)) :
    pushMetadataField pod path key value = [] := by
  obtain ⟨fields, hfields, -, hchild⟩ := h
  obtain ⟨ms, rfl⟩ := Value.isObject_of_child hindex hchild
  rw [pushMetadataField, hfields, Option.bind_some, asObject]
  dsimp only
  rw [hchild, Option.bind_some, asStr, if_pos rfl]

end

/-- `pod'` is `pod` with the label and the annotation and is the same otherwise. -/
inductive Labelled : Value → Value → Prop
  | intro {pod pod' m m' : Value} (hm : pod.child "metadata".toList = some m)
      (hm' : pod'.child "metadata".toList = some m')
      (hpod : Value.AgreesOff ["metadata".toList] pod pod')
      (hmeta : Value.AgreesOff ["labels".toList, "annotations".toList] m m')
      (hlabels : FieldSet enforcementLabel "kernel-native".toList (m.child "labels".toList)
        (m'.child "labels".toList))
      (hannotations : FieldSet suiteAnnotation "policy".toList (m.child "annotations".toList)
        (m'.child "annotations".toList)) : Labelled pod pod'

/-- The Pod with label and annotation set. -/
def labelPod (pod m : Value) : Value :=
  pod.setMember "metadata".toList
    (setField "annotations".toList suiteAnnotation "policy".toList
      (setField "labels".toList enforcementLabel "kernel-native".toList m))

section
variable {pod pod' m : Value} {env : Env}

theorem labelPod_applyPatch (hpod : pod.IsObject) (hm : pod.child "metadata".toList = some m)
    (hobj : m.IsObject) : applyPatch (pushKernelNativeMetadataPatch pod) pod =
      some (labelPod pod m) := by
  have hsame : (setField "labels".toList enforcementLabel "kernel-native".toList m).child
      "annotations".toList = m.child "annotations".toList := setField_child_ne (by decide)
  have hlabels : Under ["metadata".toList]
      (pushMetadataField pod "/metadata/labels".toList enforcementLabel "kernel-native".toList) m
      (setField "labels".toList enforcementLabel "kernel-native".toList m) :=
    pushMetadataField_under (Value.pointer_child hm (by decide)) (by decide) (by decide) (by decide)
      (by decide) hobj
  have hannotations : Under ["metadata".toList]
      (pushMetadataField pod "/metadata/annotations".toList suiteAnnotation "policy".toList)
      (setField "labels".toList enforcementLabel "kernel-native".toList m) _ :=
    pushMetadataField_under ((Value.pointer_child hm (by decide)).trans hsame.symm) (by decide)
      (by decide) (by decide) (by decide) (setField_isObject hobj)
  obtain ⟨pod', hset, hrun⟩ := (hlabels.append hannotations).applyPatch
    ((pod.get_singleton _).trans hm)
  rw [Value.set, hm, Option.bind_some, Value.set, Option.bind_some, hpod.put] at hset
  cases hset
  exact hrun

theorem labelPod_labelled (hpod : pod.IsObject) (hm : pod.child "metadata".toList = some m)
    (hobj : m.IsObject) : Labelled pod (labelPod pod m) := by
  have hmarked : (setField "labels".toList enforcementLabel "kernel-native".toList m).IsObject :=
    setField_isObject hobj
  refine .intro hm (hpod.child_setMember _ _) (Value.agreesOff_setMember (by decide) _ _)
    ((Value.agreesOff_setMember (by decide) _ _).trans
      (Value.agreesOff_setMember (by decide) _ _)) ?_ ?_
  · rw [setField_child_ne (by decide)]
    exact setField_child hobj
  · have hsame : (setField "labels".toList enforcementLabel "kernel-native".toList m).child
        "annotations".toList = m.child "annotations".toList := setField_child_ne (by decide)
    rw [← hsame]
    exact setField_child hmarked

theorem Labelled.again (h : Labelled pod pod') : pushKernelNativeMetadataPatch pod' = [] := by
  cases h with
  | @intro m m' _ hm' _ _ hlabels hannotations =>
    have hfound : pod'.pointer "/metadata/labels".toList = m'.child "labels".toList :=
      Value.pointer_child hm' (by decide)
    have hfound' : pod'.pointer "/metadata/annotations".toList = m'.child "annotations".toList :=
      Value.pointer_child hm' (by decide)
    rw [← hfound] at hlabels
    rw [← hfound'] at hannotations
    rw [pushKernelNativeMetadataPatch, pushMetadataField_of_set (by decide) hlabels,
      pushMetadataField_of_set (by decide) hannotations]
    rfl

theorem buildPatch_kernelNative {spec c : Value} {cs : List Value} (h : Placed pod spec c cs)
    (hmode : env.kernelNative = true) :
    buildPatch env pod = .ok (pushKernelNativeMetadataPatch pod) := by
  rw [buildPatch, h.pointer_containers, Option.bind_some, asArray]
  simp only [List.isEmpty_cons, Bool.false_eq_true, if_false, hmode, if_true]

end

/-! ### Every Pod -/

/-- Absent, `null` or an array. -/
def OptArray (o : Option Value) : Prop :=
  o = none ∨ o = some .null ∨ ∃ items, o = some (.array items)

/-- Absent, `null` or an object. -/
def OptObject (o : Option Value) : Prop :=
  o = none ∨ o = some .null ∨ ∃ v, o = some v ∧ v.IsObject

/-- The shape of a Pod. -/
structure IsPod (pod : Value) : Prop where
  metadata : ∃ m, pod.child "metadata".toList = some m ∧ m.IsObject ∧
    OptObject (m.child "labels".toList) ∧ OptObject (m.child "annotations".toList)
  spec : ∃ spec containers, pod.child "spec".toList = some spec ∧ spec.IsObject ∧
    OptArray (spec.child "volumes".toList) ∧ OptArray (spec.child "initContainers".toList) ∧
    spec.child "containers".toList = some (.array containers) ∧ containers ≠ [] ∧
    ∀ c ∈ containers, c.IsObject ∧ OptArray (c.child "env".toList) ∧
      OptArray (c.child "volumeMounts".toList)

/-- What the patch is to do to a Pod. -/
def Injected (env : Env) (pod pod' : Value) : Prop :=
  if env.kernelNative then Labelled pod pod' else Overlaid env pod pod'

/-- The patch for a Pod applies, changes what it is to change and nothing else, and does so
once. -/
theorem buildPatch_injects (env : Env) {pod : Value} (h : IsPod pod) :
    ∃ ops pod', buildPatch env pod = .ok ops ∧ applyPatch ops pod = some pod' ∧
      Injected env pod pod' ∧
      ∃ ops', buildPatch env pod' = .ok ops' ∧ applyPatch ops' pod' = some pod' ∧
        (env.kernelNative = true → ops' = []) := by
  obtain ⟨m, hm, hmobj, -, -⟩ := h.metadata
  obtain ⟨spec, containers, hspec, -, -, -, hcontainers, hne, hobj⟩ := h.spec
  obtain ⟨c, cs, rfl⟩ := List.exists_cons_of_ne_nil hne
  have hplaced : Placed pod spec c cs := ⟨hspec, hcontainers⟩
  cases hmode : env.kernelNative with
  | true =>
    have hlabelled := labelPod_labelled hplaced.pod_isObject hm hmobj
    have hplaced' : Placed (labelPod pod m) spec c cs :=
      ⟨(Value.child_setMember_ne (by decide) _ _).trans hspec, hcontainers⟩
    refine ⟨_, _, buildPatch_kernelNative hplaced hmode,
      labelPod_applyPatch hplaced.pod_isObject hm hmobj, ?_, ?_⟩
    · rw [Injected, hmode]
      exact hlabelled
    · exact ⟨_, buildPatch_kernelNative hplaced' hmode, by rw [hlabelled.again]; rfl,
        fun _ => hlabelled.again⟩
  | false =>
    have hc := (hobj c List.mem_cons_self).1
    obtain ⟨ops, hops, hrun⟩ := hplaced.applyPatch hc hmode
    have hoverlaid : Overlaid env pod (overlayPod env pod spec c cs) := hplaced.overlaid hc
    obtain ⟨spec', c', cs', hplaced', hc', hsame⟩ := hoverlaid.again
    obtain ⟨ops', hops', hrun'⟩ := hplaced'.applyPatch hc' hmode
    refine ⟨ops, _, hops, hrun, ?_, ops', hops', ?_, nofun⟩
    · rw [Injected, hmode]
      exact hoverlaid
    · rw [hrun', hsame]

/-- A Pod with one container and nothing else. -/
def plainPod : Value :=
  .object [("metadata".toList, .object []),
    ("spec".toList, .object [("containers".toList, .array [.object [("name".toList, str "app")]])])]

theorem plainPod_isPod : IsPod plainPod where
  metadata := ⟨.object [], rfl, ⟨[], rfl⟩, .inl rfl, .inl rfl⟩
  spec := by
    refine ⟨_, _, rfl, ⟨_, rfl⟩, .inl rfl, .inl rfl, rfl, List.cons_ne_nil _ _, ?_⟩
    intro c hc
    obtain rfl := List.mem_singleton.mp hc
    exact ⟨⟨_, rfl⟩, .inl rfl, .inl rfl⟩

theorem buildPatch_injects_plain : IsPod plainPod ∧
    ∃ ops pod', buildPatch ⟨none, none, none⟩ plainPod = .ok ops ∧
      applyPatch ops plainPod = some pod' ∧ Overlaid ⟨none, none, none⟩ plainPod pod' := by
  obtain ⟨ops, pod', hops, hrun, hinjected, -⟩ := buildPatch_injects ⟨none, none, none⟩
    plainPod_isPod
  exact ⟨plainPod_isPod, ops, pod', hops, hrun, hinjected⟩

end SyntriassOverlay.Webhook

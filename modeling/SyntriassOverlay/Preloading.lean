import SyntriassOverlay.Injection

/-!
# Whether an admitted Pod is preloaded

The webhook skips a volume, mount or init container when one of that name is there, and
replaces the first entry for the variable only. What the submitted Pod already has under these
names decides whether the patched Pod is preloaded.
-/

namespace SyntriassOverlay.Webhook
open Json

/-! ### A Pod that is preloaded -/

/-- A mount of the overlay volume. -/
def MountedAt (path : Text) (x : Value) : Prop :=
  isNamed volumeName x = true ∧ x.child "mountPath".toList = some (.string path)

/-- The overlay volume in memory. -/
def MemoryVolume (x : Value) : Prop :=
  isNamed volumeName x = true ∧
    (x.child "emptyDir".toList).bind (fun d => d.child "medium".toList) = some (str "Memory")

/-- An init container that mounts the volume and copies a library there, from any path. -/
structure CopiesLibrary (x : Value) : Prop where
  mounted : ∃ m ∈ elements (x.child "volumeMounts".toList), MountedAt "/syntriass".toList m
  command : x.child "command".toList = some (.array [str "/bin/sh", str "-ec"])
  args : ∃ source : Text, x.child "args".toList = some (.array [.string ("cp ".toList ++ source ++
    " /syntriass/libsyntriass_overlay.so && chmod 0555 /syntriass/libsyntriass_overlay.so".toList)])

/-- The entry names the library. -/
def NamesLibrary (e : Value) : Prop := e.child "value".toList = some (.string preloadValue)

inductive Preloaded : Value → Prop
  | intro {pod spec c : Value} {cs : List Value} (placed : Placed pod spec c cs)
      (hsome : ∃ e ∈ elements (c.child "env".toList), isPreload e = true)
      (hall : ∀ e ∈ elements (c.child "env".toList), isPreload e = true → NamesLibrary e)
      (hmount : ∃ x ∈ elements (c.child "volumeMounts".toList), MountedAt appMountPath x)
      (hvolume : ∃ x ∈ elements (spec.child "volumes".toList), MemoryVolume x)
      (hinit : ∃ x ∈ elements (spec.child "initContainers".toList), CopiesLibrary x) :
      Preloaded pod

/-- The entries for the variable behind the first one. -/
def laterPreloads (envs : List Value) : List Value :=
  ((envs.dropWhile fun e => !isPreload e).tail).filter isPreload

/-- What the Pod has under the names of the overlay does what the overlay needs. -/
inductive Compatible : Value → Prop
  | intro {pod spec c : Value} {cs : List Value} (placed : Placed pod spec c cs)
      (hlater : ∀ e ∈ laterPreloads (elements (c.child "env".toList)), NamesLibrary e)
      (hmount : hasNamedItem (elements (c.child "volumeMounts".toList)) volumeName = true →
        ∃ x ∈ elements (c.child "volumeMounts".toList), MountedAt appMountPath x)
      (hvolume : hasNamedItem (elements (spec.child "volumes".toList)) volumeName = true →
        ∃ x ∈ elements (spec.child "volumes".toList), MemoryVolume x)
      (hinit : hasNamedItem (elements (spec.child "initContainers".toList)) initContainerName =
          true →
        ∃ x ∈ elements (spec.child "initContainers".toList), CopiesLibrary x) :
      Compatible pod

/-! ### The injected parts -/

theorem mount_mountedAt : MountedAt appMountPath mount := ⟨mount_named, rfl⟩

theorem volume_memoryVolume : MemoryVolume volume := ⟨volume_named, rfl⟩

theorem copyCommand_eq (env : Env) : ∃ source : Text,
    "cp ".toList ++ source ++
      " /syntriass/libsyntriass_overlay.so && chmod 0555 /syntriass/libsyntriass_overlay.so".toList
    = copyCommand env := by
  have htail : ' ' :: (initMountPath ++ '/' :: overlayLibraryName) ++ (" && chmod 0555 ".toList ++
      (initMountPath ++ '/' :: overlayLibraryName)) =
      " /syntriass/libsyntriass_overlay.so && chmod 0555 /syntriass/libsyntriass_overlay.so".toList
      := by decide
  refine ⟨env.sourceLibrary.getD ("/opt/syntriass/".toList ++ overlayLibraryName), ?_⟩
  rw [copyCommand, ← htail]
  simp only [List.append_assoc]

theorem initContainer_copiesLibrary (env : Env) : CopiesLibrary (initContainer env) := by
  obtain ⟨source, hsource⟩ := copyCommand_eq env
  exact ⟨⟨_, List.mem_cons_self, rfl, rfl⟩, rfl, source, hsource.symm ▸ rfl⟩

theorem preloadEntry_namesLibrary : NamesLibrary preloadEntry := rfl

theorem ItemAdded.exists_iff {name : Text} {item : Value} {old new : Option Value}
    (h : ItemAdded name item old new) {good : Value → Prop} (hitem : good item) :
    (∃ x ∈ elements new, good x) ↔
      (hasNamedItem (elements old) name = true → ∃ x ∈ elements old, good x) := by
  rcases h with ⟨hnamed, rfl⟩ | ⟨hnamed, rfl⟩
  · exact ⟨fun h _ => h, fun h => h hnamed⟩
  · refine ⟨fun _ h => ?_, fun _ => ⟨item, List.mem_append_right _ List.mem_cons_self, hitem⟩⟩
    rw [hnamed] at h
    cases h

theorem laterPreloads_append {front back : List Value} {e : Value}
    (hfront : ∀ x ∈ front, isPreload x = false) (he : isPreload e = true) :
    laterPreloads (front ++ e :: back) = back.filter isPreload := by
  rw [laterPreloads, List.dropWhile_append_of_pos (by simpa using hfront),
    List.dropWhile_cons_of_neg (by simp [he]), List.tail_cons]

theorem laterPreloads_of_none {envs : List Value} (h : ∀ x ∈ envs, isPreload x = false) :
    laterPreloads envs = [] := by
  rw [laterPreloads, ← List.append_nil envs, List.dropWhile_append_of_pos (by simpa using h)]
  rfl

theorem PreloadSet.exists {envs envs' : List Value} (h : PreloadSet envs envs') :
    ∃ e ∈ envs', isPreload e = true := by
  cases h with
  | replaced | added => exact ⟨preloadEntry, by simp, preloadEntry_isPreload⟩

theorem PreloadSet.forall_iff {envs envs' : List Value} (h : PreloadSet envs envs') :
    (∀ e ∈ envs', isPreload e = true → NamesLibrary e) ↔
      ∀ e ∈ laterPreloads envs, NamesLibrary e := by
  cases h with
  | @replaced front back e hfront he =>
    rw [laterPreloads_append hfront he]
    constructor
    · intro h x hx
      obtain ⟨hmem, hname⟩ := List.mem_filter.mp hx
      exact h x (by simp [hmem]) hname
    · intro h x hx hname
      rcases List.mem_append.mp hx with hx | hx
      · rw [hfront x hx] at hname
        cases hname
      rcases List.mem_cons.mp hx with rfl | hx
      · exact preloadEntry_namesLibrary
      · exact h x (List.mem_filter.mpr ⟨hx, hname⟩)
  | added hnone =>
    rw [laterPreloads_of_none hnone]
    refine ⟨fun _ _ hx => (by cases hx), fun _ x hx hname => ?_⟩
    rcases List.mem_append.mp hx with hx | hx
    · rw [hnone x hx] at hname
      cases hname
    · rw [List.mem_singleton.mp hx]
      exact preloadEntry_namesLibrary

/-! ### Admitted Pods -/

section
variable {env : Env} {pod pod' spec c : Value} {cs : List Value}

theorem Placed.unique {spec₂ c₂ : Value} {cs₂ : List Value} (h : Placed pod spec c cs)
    (h₂ : Placed pod spec₂ c₂ cs₂) : spec = spec₂ ∧ c = c₂ ∧ cs = cs₂ := by
  obtain rfl := Option.some.inj (h.inPod.symm.trans h₂.inPod)
  have hall := h.inSpec.symm.trans h₂.inSpec
  simpa using hall

theorem Overlaid.preloaded_iff (h : Overlaid env pod pod') :
    Preloaded pod' ↔ Compatible pod := by
  cases h with
  | @intro spec spec' c c' cs placed placed' _ _ hvolumes hinits _ hmounts envs henv hset =>
    have hel : elements (c'.child "env".toList) = envs := by
      rw [henv]
      rfl
    have hmount_iff := hmounts.exists_iff mount_mountedAt
    have hvolume_iff := hvolumes.exists_iff volume_memoryVolume
    have hinit_iff := hinits.exists_iff (initContainer_copiesLibrary env)
    constructor
    · rintro ⟨p, -, hall, hmount, hvolume, hinit⟩
      obtain ⟨rfl, rfl, rfl⟩ := placed'.unique p
      rw [hel] at hall
      exact .intro placed (hset.forall_iff.mp hall) (hmount_iff.mp hmount)
        (hvolume_iff.mp hvolume) (hinit_iff.mp hinit)
    · rintro ⟨p, hlater, hmount, hvolume, hinit⟩
      obtain ⟨rfl, rfl, rfl⟩ := placed.unique p
      refine .intro placed' ?_ ?_ (hmount_iff.mpr hmount) (hvolume_iff.mpr hvolume)
        (hinit_iff.mpr hinit)
      · rw [hel]
        exact hset.exists
      · rw [hel]
        exact hset.forall_iff.mpr hlater

/-- A patch is made only for a Pod with a list of containers. -/
theorem placed_of_buildPatch {ops : List Json.Op} (h : buildPatch env pod = .ok ops) :
    ∃ spec c cs, Placed pod spec c cs := by
  unfold buildPatch at h
  rw [Value.pointer_eq ["spec".toList, "containers".toList] (by decide)] at h
  cases hall : (pod.get ["spec".toList, "containers".toList]).bind asArray with
  | none =>
    rw [hall] at h
    cases h
  | some containers =>
    rw [hall] at h
    cases containers with
    | nil => cases h
    | cons c cs =>
      have hget := bind_asArray hall
      rw [Value.get] at hget
      obtain ⟨spec, hspec, hget⟩ := Option.bind_eq_some_iff.mp hget
      rw [Value.get_singleton] at hget
      exact ⟨spec, c, cs, hspec, hget⟩

theorem add_of_not_isObject {k : Text} {x : Value} (hk : parseIndex k = none) (hdash : k ≠ ['-'])
    (h : ¬ c.IsObject) : c.add k x = none := by
  cases c with
  | object ms => exact absurd ⟨ms, rfl⟩ h
  | array items =>
    rw [Value.add, if_neg hdash, hk]
    rfl
  | _ => rfl

/-- The patch applies only if the first container is an object. -/
theorem Placed.isObject_of_applyPatch (h : Placed pod spec c cs) (hmode : env.kernelNative = false)
    {ops : List Json.Op} (hops : Webhook.buildPatch env pod = .ok ops)
    (hrun : Json.applyPatch ops pod = some pod') : c.IsObject := by
  by_contra hc
  have hnone : c.child "volumeMounts".toList = none := by
    by_contra hsome
    obtain ⟨x, hx⟩ := Option.ne_none_iff_exists'.mp hsome
    exact hc (Value.isObject_of_child (by decide) hx)
  have hops' := hops.symm.trans (h.buildPatch hmode)
  cases hops'
  have hunder : Under ["spec".toList] _ spec (equipped env spec) := h.equipped_under
  obtain ⟨pod₁, hset, hfirst⟩ := hunder.applyPatch ((pod.get_singleton _).trans h.inPod)
  have hplace : pod₁.get (["spec".toList] ++ ["containers".toList, ['0']]) = some c := by
    rw [Value.get_append, Value.get_set hset, Option.bind_some,
      Placed.get_container h.equipped_containers]
  have htok : tokens "/spec/containers/0/volumeMounts".toList =
      some ((["spec".toList] ++ ["containers".toList, ['0']]) ++ ["volumeMounts".toList]) := by
    decide
  have hfails : (add "/spec/containers/0/volumeMounts".toList (.array [mount])).apply pod₁ =
      none := by
    rw [Json.Op.apply, add, htok, Option.bind_some, applyAt_append _ _ (List.cons_ne_nil _ _),
      hplace, Option.bind_some, applyAt, Value.edit, add_of_not_isObject (by decide) (by decide) hc]
    rfl
  rw [applyPatch_append, hfirst, Option.bind_some, hnone, pushNamed, Option.bind_none,
    List.singleton_append, Json.applyPatch, hfails] at hrun
  cases hrun

/-- What the response to a creation says of the patch. -/
theorem mutateRequest_create {request : AdmissionRequest} (hkind : request.kind = "Pod".toList)
    (hop : request.operation = "CREATE".toList)
    (hallowed : (mutateRequest env request).allowed = true) :
    buildPatch env request.object = .ok ((mutateRequest env request).patch.getD []) := by
  have hcreate : ¬ (request.kind ≠ "Pod".toList ∨ request.operation ≠ "CREATE".toList) := by
    simp [hkind, hop]
  unfold mutateRequest at hallowed ⊢
  rw [if_neg hcreate] at hallowed ⊢
  cases hbuild : buildPatch env request.object with
  | error message =>
    rw [hbuild] at hallowed
    cases hallowed
  | ok ops =>
    dsimp only
    cases ops with
    | nil => rfl
    | cons o ops => rfl

end

/-- A Pod that is admitted is preloaded just when what it already has under the names of the
overlay does what the overlay needs. -/
theorem admitted_preloaded_iff {env : Env} {request : AdmissionRequest} {pod' : Value}
    (hmode : env.kernelNative = false) (hkind : request.kind = "Pod".toList)
    (hop : request.operation = "CREATE".toList)
    (hallowed : (mutateRequest env request).allowed = true)
    (happly : applyPatch ((mutateRequest env request).patch.getD []) request.object = some pod') :
    Preloaded pod' ↔ Compatible request.object := by
  have hops := mutateRequest_create hkind hop hallowed
  obtain ⟨spec, c, cs, hplaced⟩ := placed_of_buildPatch hops
  have hc := hplaced.isObject_of_applyPatch hmode hops happly
  obtain ⟨ops, hops', hrun⟩ := hplaced.applyPatch hc hmode
  obtain rfl := Except.ok.inj (hops.symm.trans hops')
  obtain rfl := Option.some.inj (happly.symm.trans hrun)
  exact (hplaced.overlaid hc).preloaded_iff

/-- The creation of a Pod. -/
def creation (pod : Value) : AdmissionRequest := ⟨"1", "Pod".toList, "CREATE".toList, pod⟩

theorem Placed.admitted (env : Env) {pod spec c : Value} {cs : List Value}
    (h : Placed pod spec c cs) (hc : c.IsObject) (hmode : env.kernelNative = false) :
    (mutateRequest env (creation pod)).allowed = true ∧
      Json.applyPatch ((mutateRequest env (creation pod)).patch.getD []) pod =
        some (overlayPod env pod spec c cs) := by
  obtain ⟨ops, hops, hrun⟩ := h.applyPatch hc hmode
  have hallowed : (mutateRequest env (creation pod)).allowed = true := by
    have hcreate : ¬ ((creation pod).kind ≠ "Pod".toList ∨
        (creation pod).operation ≠ "CREATE".toList) := by simp [creation]
    rw [mutateRequest, if_neg hcreate, creation, hops]
    dsimp only
    split_ifs <;> rfl
  have hpatch := hops.symm.trans (mutateRequest_create rfl rfl hallowed)
  rw [← Except.ok.inj hpatch]
  exact ⟨hallowed, hrun⟩

def ownLibrary (s : String) : Value :=
  .object [("name".toList, .string ldPreload), ("value".toList, str s)]

/-- A Pod that already has all of the overlay's parts under their names, with another library in
the first entry for the variable. -/
def equippedContainer : Value :=
  .object [("name".toList, str "app"),
    ("env".toList, .array [ownLibrary "/lib/a.so",
      ownLibrary "/usr/lib/syntriass/libsyntriass_overlay.so"]),
    ("volumeMounts".toList, .array [.object [("name".toList, str "syntriass-overlay"),
      ("mountPath".toList, str "/usr/lib/syntriass")]])]

def equippedSpec : Value :=
  .object [("volumes".toList, .array [.object [("name".toList, str "syntriass-overlay"),
      ("emptyDir".toList, .object [("medium".toList, str "Memory")])]]),
    ("initContainers".toList, .array [.object [("name".toList, str "syntriass-binary-copier"),
      ("command".toList, .array [str "/bin/sh", str "-ec"]),
      ("args".toList, .array [str ("cp /srv/overlay.so /syntriass/libsyntriass_overlay.so" ++
        " && chmod 0555 /syntriass/libsyntriass_overlay.so")]),
      ("volumeMounts".toList, .array [.object [("name".toList, str "syntriass-overlay"),
        ("mountPath".toList, str "/syntriass")]])]]),
    ("containers".toList, .array [equippedContainer])]

def equippedPod : Value :=
  .object [("metadata".toList, .object []), ("spec".toList, equippedSpec)]

/-- A Pod with none of the names, and one with all of them. -/
theorem admitted_preloaded_pods :
    (∃ pod', applyPatch ((mutateRequest ⟨none, none, none⟩ (creation plainPod)).patch.getD [])
      plainPod = some pod' ∧ Preloaded pod') ∧
    ∃ pod', applyPatch ((mutateRequest ⟨none, none, none⟩ (creation equippedPod)).patch.getD [])
      equippedPod = some pod' ∧ Preloaded pod' := by
  constructor
  · have hplaced : Placed plainPod
        (.object [("containers".toList, .array [.object [("name".toList, str "app")]])])
        (.object [("name".toList, str "app")]) [] := ⟨rfl, rfl⟩
    obtain ⟨hallowed, hrun⟩ := hplaced.admitted ⟨none, none, none⟩ ⟨_, rfl⟩ rfl
    refine ⟨_, hrun, (admitted_preloaded_iff rfl rfl rfl hallowed hrun).mpr ?_⟩
    exact .intro hplaced nofun nofun nofun nofun
  · have hplaced : Placed equippedPod equippedSpec equippedContainer [] := ⟨rfl, rfl⟩
    obtain ⟨hallowed, hrun⟩ := hplaced.admitted ⟨none, none, none⟩ ⟨_, rfl⟩ rfl
    refine ⟨_, hrun, (admitted_preloaded_iff rfl rfl rfl hallowed hrun).mpr ?_⟩
    refine .intro hplaced ?_ (fun _ => ?_) (fun _ => ?_) fun _ => ?_
    · intro e he
      cases List.mem_singleton.mp he
      rfl
    · exact ⟨_, List.mem_singleton_self _, rfl, rfl⟩
    · exact ⟨_, List.mem_singleton_self _, rfl, rfl⟩
    · exact ⟨_, List.mem_singleton_self _, ⟨_, List.mem_singleton_self _, rfl, rfl⟩, rfl,
        "/srv/overlay.so".toList, rfl⟩

/-- A container that sets the variable twice. -/
def twiceContainer : Value :=
  .object [("name".toList, str "app"),
    ("env".toList, .array [ownLibrary "/lib/a.so", ownLibrary "/lib/b.so"])]

def twicePod : Value :=
  .object [("metadata".toList, .object []),
    ("spec".toList, .object [("containers".toList, .array [twiceContainer])])]

/-- The Pod is admitted, and the variable is set to another library behind the overlay's
entry. -/
theorem admitted_preloaded_not : ∃ pod',
    (mutateRequest ⟨none, none, none⟩ (creation twicePod)).allowed = true ∧
    applyPatch ((mutateRequest ⟨none, none, none⟩ (creation twicePod)).patch.getD []) twicePod =
      some pod' ∧ ¬ Preloaded pod' := by
  have hplaced : Placed twicePod (.object [("containers".toList, .array [twiceContainer])])
      twiceContainer [] := ⟨rfl, rfl⟩
  have hc : twiceContainer.IsObject := ⟨_, rfl⟩
  obtain ⟨hallowed, hrun⟩ := hplaced.admitted ⟨none, none, none⟩ hc rfl
  refine ⟨_, hallowed, hrun, fun h => ?_⟩
  cases (hplaced.overlaid hc).preloaded_iff.mp h with
  | intro placed hlater =>
    obtain ⟨rfl, rfl, rfl⟩ := hplaced.unique placed
    have hlast : ownLibrary "/lib/b.so" ∈
        laterPreloads (elements (twiceContainer.child "env".toList)) := List.mem_cons_self
    have hother : "/lib/b.so".toList ≠ preloadValue := by decide
    exact hother (Value.string.inj (Option.some.inj (hlater _ hlast)))

end SyntriassOverlay.Webhook

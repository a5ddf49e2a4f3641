import SyntriassOverlay.Lib.Json

/-!
# The admission webhook (bin/webhook.rs:15-374)

The webhook answers the creation of a Pod with a JSON patch. By default the patch gives the
Pod a volume, an init container that copies the overlay library into it, and lets the first
container mount the volume and preload the library; in kernel-native mode it sets a label and
an annotation. Each part is decided on the Pod as it was submitted; the operations are applied
one after the other. The patch is modelled as its operations: its JSON text and base64 form
are those of the libraries.
-/

namespace SyntriassOverlay.Webhook
open Json

def volumeName : Text := "syntriass-overlay".toList
def initContainerName : Text := "syntriass-binary-copier".toList
def appMountPath : Text := "/usr/lib/syntriass".toList
def initMountPath : Text := "/syntriass".toList
def overlayLibraryName : Text := "libsyntriass_overlay.so".toList
def webhookModeKernelNative : Text := "kernel-native".toList

/-- The variables that the webhook reads; `none` is an `Err` of `env::var`. -/
structure Env where
  mode : Option Text
  copierImage : Option Text
  sourceLibrary : Option Text

def Env.kernelNative (env : Env) : Bool := env.mode == some webhookModeKernelNative

structure AdmissionRequest where
  uid : String
  kind : Text
  operation : Text
  object : Value

structure AdmissionResponse where
  uid : String
  allowed : Bool
  status : Option String
  patchType : Option String
  patch : Option (List Json.Op)

/-! ### Values -/

def asArray : Value → Option (List Value)
  | .array items => some items
  | _ => none

def asStr : Value → Option Text
  | .string s => some s
  | _ => none

def asObject : Value → Option Value
  | .object ms => some (.object ms)
  | _ => none

def str (s : String) : Value := .string s.toList

def isNamed (name : Text) (item : Value) : Bool :=
  (item.child "name".toList).bind asStr == some name

def namedItemIndex (items : List Value) (name : Text) : Option ℕ := items.findIdx? (isNamed name)

def hasNamedItem (items : List Value) (name : Text) : Bool := (namedItemIndex items name).isSome

def add (path : Text) (value : Value) : Json.Op := ⟨.add, path, value⟩

def replace (path : Text) (value : Value) : Json.Op := ⟨.replace, path, value⟩

def volume : Value :=
  .object [("name".toList, .string volumeName),
    ("emptyDir".toList, .object [("medium".toList, str "Memory")])]

def copyCommand (env : Env) : Text :=
  let source := env.sourceLibrary.getD ("/opt/syntriass/".toList ++ overlayLibraryName)
  let target := initMountPath ++ '/' :: overlayLibraryName
  "cp ".toList ++ source ++ ' ' :: target ++ " && chmod 0555 ".toList ++ target

def initContainer (env : Env) : Value :=
  .object [("name".toList, .string initContainerName),
    ("image".toList, .string (env.copierImage.getD "syntriass/overlay-copier:latest".toList)),
    ("imagePullPolicy".toList, str "IfNotPresent"),
    ("command".toList, .array [str "/bin/sh", str "-ec"]),
    ("args".toList, .array [.string (copyCommand env)]),
    ("volumeMounts".toList, .array [.object [("name".toList, .string volumeName),
      ("mountPath".toList, .string initMountPath)]]),
    ("securityContext".toList, .object [("allowPrivilegeEscalation".toList, .bool false),
      ("readOnlyRootFilesystem".toList, .bool true), ("runAsNonRoot".toList, .bool true),
      ("runAsUser".toList, .number "65532".toList), ("runAsGroup".toList, .number "65532".toList),
      ("capabilities".toList, .object [("drop".toList, .array [str "ALL"])])])]

def mount : Value :=
  .object [("name".toList, .string volumeName), ("mountPath".toList, .string appMountPath),
    ("readOnly".toList, .bool true)]

def ldPreload : Text := "LD_PRELOAD".toList

def preloadValue : Text := appMountPath ++ '/' :: overlayLibraryName

def preloadEntry : Value :=
  .object [("name".toList, .string ldPreload), ("value".toList, .string preloadValue)]

/-! ### The patch -/

/-- Put `item` behind the others unless one has its name. -/
def pushNamed (found : Option Value) (path name : Text) (item : Value) : List Json.Op :=
  match found.bind asArray with
  | some items => if hasNamedItem items name then [] else [add (path ++ "/-".toList) item]
  | none => [add path (.array [item])]

def pushVolumePatch (pod : Value) : List Json.Op :=
  pushNamed (pod.pointer "/spec/volumes".toList) "/spec/volumes".toList volumeName volume

def pushInitContainerPatch (env : Env) (pod : Value) : List Json.Op :=
  pushNamed (pod.pointer "/spec/initContainers".toList) "/spec/initContainers".toList
    initContainerName (initContainer env)

/-- The part of `push_target_container_patch` that sets the variable. -/
def pushPreload (found : Option Value) (envPath : Text) : List Json.Op :=
  match found.bind asArray with
  | some envs =>
    match namedItemIndex envs ldPreload with
    | some index => [replace (envPath ++ '/' :: Nat.toDigits 10 index) preloadEntry]
    | none => [add (envPath ++ "/-".toList) preloadEntry]
  | none => [add envPath (.array [preloadEntry])]

def pushTargetContainerPatch (pod : Value) (containerIndex : ℕ) : Except String (List Json.Op) :=
  let path := "/spec/containers/".toList ++ Nat.toDigits 10 containerIndex
  match pod.pointer path with
  | none => .error "target container is missing"
  | some container =>
    .ok (pushNamed (container.pointer "/volumeMounts".toList) (path ++ "/volumeMounts".toList)
        volumeName mount ++
      pushPreload (container.pointer "/env".toList) (path ++ "/env".toList))

def escape (key : Text) : Text := key.flatMap fun c => if c = '/' then "~1".toList else [c]

def pushMetadataField (pod : Value) (objectPath key value : Text) : List Json.Op :=
  match (pod.pointer objectPath).bind asObject with
  | some fields =>
    if (fields.child key).bind asStr = some value then []
    else if (fields.child key).isSome then
      [replace (objectPath ++ '/' :: escape key) (.string value)]
    else [add (objectPath ++ '/' :: escape key) (.string value)]
  | none => [add objectPath (.object [(key, .string value)])]

def enforcementLabel : Text := "syntriass.io/enforcement".toList
def suiteAnnotation : Text := "syntriass.io/pqc-suite".toList

def pushKernelNativeMetadataPatch (pod : Value) : List Json.Op :=
  pushMetadataField pod "/metadata/labels".toList enforcementLabel "kernel-native".toList ++
    pushMetadataField pod "/metadata/annotations".toList suiteAnnotation "policy".toList

def buildPatch (env : Env) (pod : Value) : Except String (List Json.Op) :=
  match (pod.pointer "/spec/containers".toList).bind asArray with
  | none => .error "Pod spec.containers must be an array"
  | some containers =>
    if containers.isEmpty then .error "Pod spec.containers cannot be empty"
    else if env.kernelNative then .ok (pushKernelNativeMetadataPatch pod)
    else
      match pushTargetContainerPatch pod 0 with
      | .error e => .error e
      | .ok target => .ok (pushVolumePatch pod ++ pushInitContainerPatch env pod ++ target)

def allowWithoutPatch (uid : String) : AdmissionResponse := ⟨uid, true, none, none, none⟩

def deny (uid message : String) : AdmissionResponse := ⟨uid, false, some message, none, none⟩

def mutateRequest (env : Env) (request : AdmissionRequest) : AdmissionResponse :=
  if request.kind ≠ "Pod".toList ∨ request.operation ≠ "CREATE".toList then
    allowWithoutPatch request.uid
  else
    match buildPatch env request.object with
    | .ok patch =>
      if patch.isEmpty then allowWithoutPatch request.uid
      else ⟨request.uid, true, none, some "JSONPatch", some patch⟩
    | .error message => deny request.uid message

end SyntriassOverlay.Webhook

import Radar.Server.NamespaceScope
import Radar.Topology.NodeRef

/- internal/server/sse.go: the broadcaster behind the event stream, and the namespace list that
   handleSSE hands it. The objects of the cluster and the graphs built of them are opaque here. -/
namespace EventStream
open Topology GoText NamespaceScope

structure FieldChange where
  path : String
  oldValue : String
  newValue : String
  deriving DecidableEq

structure DiffInfo where
  fields : List FieldChange
  summary : String
  deriving DecidableEq

structure ResourceChange where
  kind : String
  namespace_ : String
  name : String
  operation : String
  diff : Option DiffInfo
  deriving DecidableEq

/-- The events that are about no resource. -/
inductive Notice where
  | heartbeat | connectionState | contextSwitchProgress | contextChanged | deferredReady
  deriving DecidableEq

inductive SSEEvent where
  | k8sEvent (change : ResourceChange)
  | topology (topo : Graph)
  | notice (event : Notice) (data : String)
  deriving DecidableEq

structure ConnectionStatus where
  connected : Bool
  text : String

structure ClientInfo where
  namespaces : Option (List String)
  viewMode : String
  showPolicyEffect : Bool
  deriving DecidableEq

/-- The clients of one broadcast that are sent the same bytes. -/
structure ClientGroup where
  key : List Char × String × Bool
  namespaces : Option (List String)
  channels : List Nat
  deriving DecidableEq

structure ResourceKey where
  kind : String
  namespace_ : String
  name : String
  deriving DecidableEq

abbrev Resources (Object : Type) := ResourceKey → Option Object

/-- topology.Builder.Build over the cache; `none` when it fails. -/
abbrev Build (Object : Type) := BuildOptions → Resources Object → Option Graph

/-- Channels are numbered as they are opened. `received` is what the handler has written to the
client, `pending` the groups that broadcasts under way have yet to send. -/
structure SSEBroadcaster (Object : Type) where
  clients : List (Nat × ClientInfo)
  queue : Nat → List SSEEvent
  received : Nat → List SSEEvent
  opened : Nat
  resources : Option (Resources Object)
  pending : List ClientGroup

def maxSSEClients : Nat := 100

def channelSize : Nat := 10

/-- A full channel drops the event. -/
def safeSend (queue : List SSEEvent) (event : SSEEvent) : List SSEEvent :=
  if queue.length < channelSize then queue ++ [event] else queue

def ClientInfo.key (info : ClientInfo) : List Char × String × Bool :=
  (join ',' ((info.namespaces.getD []).map String.toList), info.viewMode, info.showPolicyEffect)

def topologyOptions (namespaces : Option (List String)) (viewMode : String)
    (showPolicyEffect : Bool) : BuildOptions :=
  { defaultBuildOptions with
    namespaces := namespaces
    viewMode := if viewMode = "traffic" then .traffic else defaultBuildOptions.viewMode
    showPolicyEffect := showPolicyEffect }

/-- The first client of a key gives its group the namespaces. -/
def addToGroup (groups : List ClientGroup) (client : Nat × ClientInfo) : List ClientGroup :=
  match groups with
  | [] => [⟨client.2.key, client.2.namespaces, [client.1]⟩]
  | group :: rest =>
    if group.key = client.2.key then
      { group with channels := group.channels ++ [client.1] } :: rest
    else group :: addToGroup rest client

def clientGroups (clients : List (Nat × ClientInfo)) : List ClientGroup := clients.foldl addToGroup []

def ClientGroup.options (group : ClientGroup) : BuildOptions :=
  topologyOptions group.namespaces group.key.2.1 group.key.2.2

/-- What watchResourceChanges passes on at once. -/
def important (change : ResourceChange) : Bool := change.kind == "Event" || change.operation == "delete" ||
    (change.kind == "Pod" && change.operation != "update") || change.diff.isSome

/-- Nil stays nil: it is every namespace, and the empty list is none. -/
def sortNamespaces (namespaces : Option (List String)) : Option (List String) :=
  namespaces.map fun listed => listed.mergeSort fun a b => decide (a ≤ b)

/-- What handleSSE makes of the list the user may see, by way of the request's query. -/
def streamNamespaces (namespaces : Option (List String)) : Option (List String) :=
  parseNamespaces fun key => match namespaces with
    | none => []
    | some listed =>
      if key ≠ "namespaces" then []
      else if listed.length = 0 then ["__no_access__"]
      else [String.ofList (join ',' (listed.map String.toList))]

section Steps
variable {Object : Type}

def SSEBroadcaster.channels (b : SSEBroadcaster Object) : List Nat := b.clients.map Prod.fst

/-- A channel that has been closed since it was looked up takes nothing. -/
def SSEBroadcaster.sendTo (b : SSEBroadcaster Object) (targets : List Nat) (event : SSEEvent) :
    SSEBroadcaster Object :=
  { b with queue := fun ch =>
      if ch ∈ targets ∧ ch ∈ b.channels then safeSend (b.queue ch) event else b.queue ch }

def SSEBroadcaster.broadcast (b : SSEBroadcaster Object) (event : SSEEvent) : SSEBroadcaster Object :=
  b.sendTo b.channels event

/-- The frames that HandleSSE writes itself before it streams the channel. -/
def initialFrames (build : Build Object) (resources : Option (Resources Object))
    (namespaces : Option (List String)) (viewMode : String) (showPolicyEffect : Bool)
    (status : ConnectionStatus) : List SSEEvent :=
  .notice .connectionState status.text :: if status.connected then
      match resources.bind (build (topologyOptions namespaces viewMode showPolicyEffect)) with
      | none => []
      | some topo => [.topology topo]
    else []

/-- HandleSSE up to the loop. A rejected client gets no channel. -/
def SSEBroadcaster.subscribe (build : Build Object) (b : SSEBroadcaster Object)
    (namespaces : Option (List String)) (viewMode : String) (showPolicyEffect : Bool)
    (status : ConnectionStatus) : SSEBroadcaster Object :=
  if maxSSEClients ≤ b.clients.length then b
  else
    { b with
      clients := b.clients ++ [(b.opened, ⟨sortNamespaces namespaces, viewMode, showPolicyEffect⟩)]
      queue := fun ch => if ch = b.opened then [] else b.queue ch
      received := fun ch => if ch = b.opened then
          initialFrames build b.resources namespaces viewMode showPolicyEffect status
        else b.received ch
      opened := b.opened + 1 }

/-- The second half of broadcastTopologyUpdate for one group. -/
def SSEBroadcaster.sendGroup (build : Build Object) (b : SSEBroadcaster Object)
    (group : ClientGroup) : SSEBroadcaster Object :=
  match b.resources.bind (build group.options) with
  | none => b
  | some topo => b.sendTo group.channels (.topology topo)

inductive Step (Object : Type) where
  | subscribe (namespaces : Option (List String)) (viewMode : String) (showPolicyEffect : Bool)
      (status : ConnectionStatus)
  | unsubscribe (channel : Nat)
  /-- An informer stores an object, or forgets it. -/
  | stored (key : ResourceKey) (object : Option Object)
  /-- The cluster's cache is torn down or replaced. -/
  | switched (resources : Option (Resources Object))
  /-- watchResourceChanges takes a change from its channel. -/
  | watched (change : ResourceChange)
  /-- broadcastTopologyUpdate groups the clients, met in the order of a map's iteration. -/
  | grouped (order : List (Nat × ClientInfo))
  /-- It builds and sends one of its groups. -/
  | sent (position : Nat)
  | notified (event : Notice) (data : String)
  /-- A client's handler takes the next event from its channel. -/
  | delivered (channel : Nat)

def step (build : Build Object) (b : SSEBroadcaster Object) : Step Object → Option (SSEBroadcaster Object)
  | .subscribe namespaces viewMode showPolicyEffect status =>
    some (b.subscribe build namespaces viewMode showPolicyEffect status)
  | .unsubscribe channel => some { b with clients := b.clients.filter fun c => c.1 ≠ channel }
  | .stored key object => some { b with resources := b.resources.map fun held =>
      fun key' => if key' = key then object else held key' }
  | .switched resources => some { b with resources := resources }
  | .watched change => some (if important change then b.broadcast (.k8sEvent change) else b)
  | .grouped order =>
    if ¬ order.Perm b.clients then none
    else if b.resources.isNone then some b
    else some { b with pending := b.pending ++ clientGroups order }
  | .sent position => b.pending[position]?.map fun group =>
      { b.sendGroup build group with pending := b.pending.eraseIdx position }
  | .notified event data => some (b.broadcast (.notice event data))
  | .delivered channel => some { b with
      queue := fun ch => if ch = channel then (b.queue ch).tail else b.queue ch
      received := fun ch => if ch = channel then b.received ch ++ (b.queue ch).head?.toList
        else b.received ch }

def initial : SSEBroadcaster Object := ⟨[], fun _ => [], fun _ => [], 0, none, []⟩

end Steps

end EventStream

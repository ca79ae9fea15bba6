import EnvDiscovery.Discovery.Workspace
import EnvDiscovery.Listing

/-!
**A running discovery.**

A session joins the sources of a machine with the workspace, remembers what it has resolved, and
passes news of changes on to its clients.

Main definitions:
* `Session` — the state of a running discovery;
* `Session.search`, `Session.environments` — what a query finds, as found and completed;
* `Session.resolve` — one environment;
* `Session.interpreters`, `Session.details`, `Session.hasInterpreters` — listings;
* `Session.fire`, `Session.fileChanged` — who hears of a change;
* `Session.subscribe`, `Session.dispose` — clients and the end;
* `Session.next` — environments one at a time.
-/

namespace EnvDiscovery

/-- Where a client can listen. -/
inductive Post where
  | source (position : Nat)
  | workspace
  | joined
deriving DecidableEq, Repr

/-- A registration at a post. -/
structure Registration where
  post : Post
  number : Nat
deriving DecidableEq, Repr

/-- Whether a listing is being made or done. -/
inductive RefreshState where
  | refreshing
  | refreshed
deriving DecidableEq, Repr

/-- The name of a state. -/
def RefreshState.name : RefreshState → String
  | refreshing => "Refreshing"
  | refreshed => "Refreshed"

/-- What clients hear. -/
inductive News where
  | change (client : String) (e : EnvChange)
  | refresh (state : RefreshState)

/-- Environments that are taken one at a time: from the sources of the workspace in turn, each given
by its root and position and searched when its turn first comes, or from the joined sources, all
searched with the first. -/
inductive OpenListing where
  | roots (queue : List (Nat × Nat × Option (List (Option EnvRecord))))
  | joined (query : Query) (roots : List Nat)
  | ready (records : List EnvRecord)

/-- The state of a running discovery. `joinsWorkspace` tells whether the workspace takes part in
it. -/
structure Session where
  machine : Machine
  cache : Option Resolution.Cache
  now : Timestamp
  store : Store
  sources : List WatchedLocator
  watcher : Watcher
  folders : List Path
  workspace : Workspace
  joinsWorkspace : Bool
  known : Known
  emitter : Emitter String
  forwards : Option (List Registration)
  clients : List (String × Registration)
  listings : List (String × OpenListing)
  news : List News
  calls : List Call

/-- An action of a session. -/
abbrev SessionM := StateM Session

namespace Session

/-- A session over sources and folders, with what makes the sources of the folders. The folders are
watched natively. -/
def newWith (factories : List RootFactory) (machine : Machine) (cache : Option Resolution.Cache)
    (now : Timestamp) (store : Store) (sources : List Locator) (watcher : Watcher)
    (folders : List Path) (joinsWorkspace : Bool) : Session :=
  let watcher := folders.foldl Watcher.addNative watcher
  let (workspace, watcher) := Workspace.ofFolders factories machine.host watcher folders
  { machine, cache, now, store, watcher, folders, workspace, joinsWorkspace
    sources := sources.map .ofLocator
    known := .empty
    emitter := .empty
    forwards := none
    clients := []
    listings := []
    news := []
    calls := [] }

/-- A session over sources and folders, where virtual environments are looked for in the folders. -/
def new (machine : Machine) (cache : Option Resolution.Cache) (now : Timestamp) (store : Store)
    (sources : List Locator) (watcher : Watcher) (folders : List Path) (joinsWorkspace : Bool) :
    Session :=
  newWith [RootVirtualEnvs.factory] machine cache now store sources watcher folders joinsWorkspace

/-- The resolver of the session. -/
def resolver (s : Session) : Resolver := ⟨s.machine, s.cache, s.now⟩

/-- Notes calls and gives the result. -/
def traced {α : Type} (x : Traced α) : SessionM α := do
  modify fun s => { s with calls := s.calls ++ x.calls }
  return x.value

/-! ### Searching -/

/-- Lists one source and notes a report of conda. -/
def listSource (position : Nat) : SessionM Found := do
  let s ← get
  match s.sources[position]? with
  | none => return .ofRecords []
  | some x =>
    let found ← traced (x.locator.list s.machine)
    match found.report with
    | none => return found
    | some report =>
      modify fun s =>
        let (x, watcher) := x.noteReport s.watcher (.machine position) report
        { s with sources := s.sources.set position x, watcher := watcher }
      return found

/-- Lists sources in order; one that breaks off at once ends the search. -/
def listSources : List Nat → SessionM (List Found)
  | [] => return []
  | position :: rest => do
    let found ← listSource position
    if found.breaksAtOnce then return [found]
    return found :: (← listSources rest)

/-- The positions of the sources that a query searches. -/
def searched (s : Session) (q : Query) : List Nat :=
  if q.includesNonRooted then List.range s.sources.length else []

/-- The numbers of the roots that a query searches. -/
def searchedRoots (s : Session) (q : Query) : List Nat :=
  if s.joinsWorkspace then s.workspace.searched q else []

/-- What the sources and the given roots find for a query; nothing if a source broke off. -/
def searchIn (q : Query) (roots : List Nat) : SessionM (Option (List EnvRecord)) := do
  let found ← listSources ((← get).searched q)
  let s ← get
  let ofRoots := s.workspace.list s.machine.toSurroundings roots
  return (Composite.untilGap (roundRobin (found.map Found.items ++ [ofRoots]))).map
    (Composite.collect s.machine.fs q)

/-- What a query finds; nothing if a source broke off. -/
def search (q : Query) : SessionM (Option (List EnvRecord)) := do
  searchIn q ((← get).searchedRoots q)

/-- What a query finds, completed and remembered; nothing if a source broke off. -/
def environments (q : Query) : SessionM (Option (List EnvRecord)) := do
  match ← search q with
  | none => return none
  | some found =>
    let s ← get
    let ⟨es, store⟩ ← traced (Composite.completeAll s.resolver s.store found)
    modify fun s => { s with store := store, known := s.known.remember q es }
    return some es

/-- The sources that may recognise an executable, in order. -/
def locators (s : Session) : List Locator :=
  s.sources.map (·.locator) ++ (if s.joinsWorkspace then s.workspace.sources else [])

/-- The complete record of one executable. -/
def resolve (ref : EnvRef) : SessionM (Except ProcessFailure (Option EnvRecord)) := do
  let s ← get
  let r ← traced (Composite.resolve s.resolver s.locators s.store s.known ref)
  modify fun s => { s with store := r.store, known := r.known }
  return r.result

/-! ### Listings -/

/-- The query that a resource stands for: the root that contains it, and what belongs to no root. -/
def queryFor (s : Session) (resource : Option Path) : Query :=
  match resource.bind fun p => if s.joinsWorkspace then s.workspace.rootContaining p else none with
  | some root => .forRoots [root] true
  | none => .all

/-- Whether one of the wanted sources found a record. -/
def hasSource (sources : Option (List EnvSource)) (e : EnvRecord) : Bool :=
  match sources with
  | none => true
  | some wanted => wanted.any e.sources.contains

/-- The interpreters for a resource. A source that breaks off leaves none, and the listing is
announced at its start and its end all the same. -/
def interpreters (resource : Option Path) (onlyKnown : Bool) (sources : Option (List EnvSource)) :
    SessionM (List Listing.Entry) := do
  modify fun s => { s with news := s.news ++ [.refresh .refreshing] }
  let before ← get
  let es ← if onlyKnown then pure before.known.records
    else do pure ((← environments (before.queryFor resource)).getD [])
  modify fun s => { s with news := s.news ++ [.refresh .refreshed] }
  return (es.filter (hasSource sources)).map fun e =>
    Listing.entryOf e (before.known.contains e.path)

/-- The interpreter at a path. -/
def details (path : Path) : SessionM (Except ProcessFailure (Option Listing.Entry)) := do
  let cached := (← get).known.contains path
  return (← resolve (.path path)).map (Option.map (Listing.entryOf · cached))

/-- Whether an interpreter is known or can be found; no answer if a source broke off. -/
def hasInterpreters : SessionM (Option Bool) := do
  if !(← get).known.entries.isEmpty then return some true
  return (← search .all).map (!·.isEmpty)

/-! ### News -/

/-- What is heard of a change that reaches the joined discovery. -/
def heardJoined (s : Session) (e : EnvChange) : List News :=
  s.emitter.current.map (.change · e)

/-- What is heard of a change that reaches the workspace. -/
def heardWorkspace (s : Session) (e : EnvChange) : List News :=
  s.workspace.emitter.current.flatMap fun
    | .client name => [.change name e]
    | .joined => s.heardJoined e
    | .workspace _ => []

/-- What is heard of a change that a source reports. The workspace names the root if nothing else
does. -/
def heardSource (s : Session) (x : WatchedLocator) (e : EnvChange) : List News :=
  x.notifier.emitter.current.flatMap fun
    | .client name => [.change name e]
    | .joined => s.heardJoined e
    | .workspace number =>
      match s.workspace.root? number with
      | none => []
      | some r => s.heardWorkspace { e with searchLocation := e.searchLocation <|> some r.root }

/-- The source that a watch belongs to. -/
def ownerOf (s : Session) : WatchOwner → Option WatchedLocator
  | .machine position => s.sources[position]?
  | .root number position => (s.workspace.source? number position).map (·.watched)

/-- Notes news. -/
def tell (news : List News) : SessionM Unit :=
  modify fun s => { s with news := s.news ++ news }

/-- A source reports a change. -/
def fire (source : WatchOwner) (e : EnvChange) : SessionM Unit := do
  let s ← get
  match s.ownerOf source with
  | none => return
  | some x => tell (s.heardSource x e)

/-- A source of the machine reports a change. -/
def fireSource (position : Nat) (e : EnvChange) : SessionM Unit :=
  fire (.machine position) e

/-- What is heard when a file changes, watch by watch. -/
def heardFile (s : Session) (path : Path) (change : FileChange) : List News :=
  (s.watcher.reached path).flatMap fun x =>
    match s.ownerOf x.owner with
    | none => []
    | some source => s.heardSource source { x.target.event with change := some change }

/-- A file changes; gives the number of watches that the change reaches. -/
def fileChanged (path : Path) (change : FileChange) : SessionM Nat := do
  let s ← get
  tell (s.heardFile path change)
  return (s.watcher.reached path).length

/-! ### Clients -/

/-- Withdraws a registration. -/
def withdraw (s : Session) (r : Registration) : Session :=
  match r.post with
  | .source position => { s with sources := s.sources.modify position (·.unsubscribe r.number) }
  | .workspace =>
    { s with workspace := { s.workspace with emitter := s.workspace.emitter.remove r.number } }
  | .joined => { s with emitter := s.emitter.remove r.number }

/-- Registers at a source or the workspace; nothing if the post has no news. -/
def register (post : Post) (h : Hearer) : SessionM (Option Registration) := do
  let s ← get
  match post with
  | .source position =>
    match s.sources[position]?.bind fun x =>
        x.subscribe s.machine.host s.watcher (.machine position) h with
    | none => return none
    | some (x, watcher, number) =>
      set { s with sources := s.sources.set position x, watcher := watcher }
      return some ⟨post, number⟩
  | .workspace =>
    let (workspace, watcher, number) := s.workspace.subscribe s.machine.host s.watcher h
    set { s with workspace := workspace, watcher := watcher }
    return some ⟨post, number⟩
  | .joined => return none

/-- Registers the joined discovery at posts in order. -/
def registerAll : List Post → SessionM (List Registration)
  | [] => return []
  | post :: rest => do
    let first ← register post .joined
    return first.toList ++ (← registerAll rest)

/-- The posts that the joined discovery listens at. -/
def posts (s : Session) : List Post :=
  (List.range s.sources.length).map .source ++ (if s.joinsWorkspace then [.workspace] else [])

/-- Registers a client at the joined discovery; with the first one it begins to listen itself. -/
def registerJoined (client : String) : SessionM Registration := do
  let s ← get
  let (emitter, number) := s.emitter.add client
  set { s with emitter := emitter }
  if s.forwards.isNone then
    let forwards ← registerAll s.posts
    modify fun s => { s with forwards := some forwards }
  return ⟨.joined, number⟩

/-- Withdraws a client; tells whether it was registered. -/
def unsubscribe (client : String) : SessionM Bool := do
  let s ← get
  match s.clients.lookup client with
  | none => return false
  | some r =>
    set { s.withdraw r with clients := s.clients.filter (·.1 != client) }
    return true

/-- Registers a client at a post, then drops its older registration. -/
def subscribe (client : String) (post : Post) : SessionM Bool := do
  let r ← match post with
    | .joined => some <$> registerJoined client
    | post => register post (.client client)
  match r with
  | none => return false
  | some r =>
    let _ ← unsubscribe client
    modify fun s => { s with clients := s.clients ++ [(client, r)] }
    return true

/-- Stops the watches of a source. -/
def disposeSource (s : Session) (position : Nat) : Session :=
  match s.sources[position]? with
  | none => s
  | some x =>
    let (x, watcher) := x.dispose s.watcher
    { s with sources := s.sources.set position x, watcher := watcher }

/-- Ends the workspace. -/
def disposeWorkspace (s : Session) : Session :=
  let (workspace, watcher) := s.workspace.dispose s.watcher
  { s with workspace := workspace, watcher := watcher }

/-- Stops everything: the joined discovery listens no longer, and all sources stop. -/
def dispose (s : Session) : Session :=
  let s := { (s.forwards.getD []).foldl withdraw s with forwards := none }
  let s := (List.range s.sources.length).foldl disposeSource s
  if s.joinsWorkspace then s.disposeWorkspace else s

/-! ### Folders -/

/-- The workspace hears that a folder was opened. -/
def rootOpened (root : Path) : SessionM Unit := do
  let s ← get
  match s.workspace.addRoot s.machine.host s.watcher root with
  | none => return
  | some (workspace, watcher) =>
    set { s with workspace := workspace, watcher := watcher }
    tell ((← get).heardWorkspace (.ofLocation root))

/-- The workspace hears that a folder was closed. -/
def rootClosed (root : Path) : SessionM Unit := do
  let s ← get
  match s.workspace.removeRoot s.watcher root with
  | none => return
  | some (workspace, watcher) =>
    set { s with workspace := workspace, watcher := watcher }
    tell ((← get).heardWorkspace (.ofLocation root))

/-- Opens a folder; tells whether it was closed before. -/
def openFolder (root : Path) : SessionM Bool := do
  let s ← get
  match Folders.open? s.folders root with
  | none => return false
  | some folders =>
    set { s with folders := folders, watcher := s.watcher.addNative root }
    if s.workspace.attached then rootOpened root
    return true

/-- Closes a folder; tells whether it was open before. -/
def closeFolder (root : Path) : SessionM Bool := do
  let s ← get
  match Folders.close? s.folders root with
  | none => return false
  | some folders =>
    set { s with folders := folders, watcher := s.watcher.removeNative root }
    if s.workspace.attached then rootClosed root
    return true

/-! ### One at a time -/

/-- Begins a listing of the workspace. -/
def openRoots (s : Session) (q : Query) : OpenListing :=
  .roots (((s.workspace.searched q).filterMap s.workspace.root?).flatMap fun r =>
    (List.range r.sources.length).map (r.number, ·, none))

/-- Begins a listing of the joined sources. -/
def openJoined (s : Session) (q : Query) : OpenListing :=
  .joined q (s.searchedRoots q)

/-- Keeps a listing under a name. -/
def keep (name : String) (l : OpenListing) : SessionM Unit :=
  modify fun s => { s with listings := (name, l) :: s.listings.filter (·.1 != name) }

/-- What a source of a root gives; a root that is gone has no sources. -/
def listRootSource (s : Session) (number position : Nat) : List (Option EnvRecord) :=
  match (s.workspace.root? number).bind (·.sources[position]?) with
  | none => []
  | some x => (x.watched.locator.found s.machine.toSurroundings).items

/-- The next environment of a queue of sources, and the queue after it: no answer if a source breaks
off, none at the end. A source that has ended or broken off or whose root is gone drops out; one
that gave an environment goes to the end. -/
def nextOfRoots (s : Session) : List (Nat × Nat × Option (List (Option EnvRecord))) →
    Option (Option EnvRecord) × List (Nat × Nat × Option (List (Option EnvRecord)))
  | [] => (some none, [])
  | (number, position, pending) :: rest =>
    if (s.workspace.root? number).isNone then s.nextOfRoots rest
    else
      match pending.getD (s.listRootSource number position) with
      | [] => s.nextOfRoots rest
      | none :: _ => (none, rest)
      | some e :: more => (some (some e), rest ++ [(number, position, some more)])

/-- The next environment of a kept listing: no answer if a source broke off, none at the end. -/
def next (name : String) : SessionM (Option (Option EnvRecord)) := do
  let s ← get
  match s.listings.lookup name with
  | none => return some none
  | some (.roots queue) =>
    let (e, queue) := s.nextOfRoots queue
    keep name (.roots queue)
    return e
  | some (.joined q roots) =>
    match ← searchIn q roots with
    | none =>
      keep name (.ready [])
      return none
    | some es =>
      keep name (.ready es.tail)
      return some es.head?
  | some (.ready es) =>
    keep name (.ready es.tail)
    return some es.head?

/-! ### Notes -/

/-- Takes the news and calls noted so far. -/
def takeNotes : SessionM (List News × List Call) := do
  let s ← get
  set { s with news := [], calls := [] }
  return (s.news, s.calls)

end Session

end EnvDiscovery

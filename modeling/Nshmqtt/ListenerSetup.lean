import Nshmqtt.Config
import Nshmqtt.ErrorPrograms
import Nshmqtt.HeldResources

/-!
# The sockets of the server

`Server::init` opens the signal descriptor, the Unix socket and the TCP listeners, and `cleanup`
and the destructor close them.  Every system call may fail; what each of them does is in `Calls`,
and what the path of the Unix socket holds is part of the state.

* `init_meets`: after a successful start all listeners are there, and at any moment the server
  knows its descriptors and what may be done with the path;
* `lifetime_ends`: whatever fails, each descriptor that was opened is closed once, what other
  programs have at the path stays there, unless it is a socket that refuses the probe or that
  could not be probed, and an own socket is removed in the end.
-/

namespace Nshmqtt

open ByteStrings ErrorPrograms HeldResources

namespace ListenerSetup

/-- What is at the path of the Unix socket. -/
inductive PathEntry
  | nothing
  /-- Not a socket. -/
  | file
  /-- A socket of another program. -/
  | socket
  | ownSocket
  deriving DecidableEq

inductive Family
  | inet
  | inet6
  deriving DecidableEq

/-- The outcomes of the system calls of `bind_one_tcp`; a failure has the text of its errno. -/
structure TcpCalls (Fd : Type) where
  socket : Except Bytes Fd
  reuseAddr : Except Bytes Unit
  v6only : Except Bytes Unit
  bind : Except Bytes Unit
  listen : Except Bytes Unit

inductive MkdirResult
  | made
  | alreadyThere
  | failed (errno : Bytes)

/-- The outcomes of the system calls of one run of the program. -/
structure Calls (Fd : Type) where
  sigprocmask : Except Bytes Unit
  signalfd : Except Bytes Fd
  mkdir : MkdirResult
  /-- `lstat` of the directory: whether it is one. -/
  statDirectory : Except Bytes Bool
  access : Except Bytes Unit
  /-- `lstat` of the path, when it fails although something may be there. -/
  lstat : Except Bytes Unit
  /-- The `socket` of the probe; when it fails, the source goes on as if nobody listened. -/
  probe : Option Fd
  /-- `connect` of the probe, to as much of the path as `sun_path` takes. -/
  connect : Bool
  unlinkStale : Except Bytes Unit
  socket : Except Bytes Fd
  bind : Except Bytes Unit
  chmod : Except Bytes Unit
  listen : Except Bytes Unit
  /-- `inet_pton` reads the address. -/
  isIPv4 : Bytes → Bool
  isIPv6 : Bytes → Bool
  firstTcp : TcpCalls Fd
  secondTcp : TcpCalls Fd
  unlinkOwn : Except Bytes Unit

/-- The descriptors of the server, the path, and the log of what was opened, closed and, with
what was there, unlinked. -/
structure Server (Fd : Type) where
  listenFd : Option Fd
  tcpListenFds : List Fd
  signalFd : Option Fd
  socketCreated : Bool
  hasPool : Bool
  path : PathEntry
  log : List (Entry Fd PathEntry)

abbrev Setup (Fd : Type) := ExceptT Bytes (StateM (Server Fd))

variable {Fd : Type}

def start (path : PathEntry) : Server Fd := ⟨none, [], none, false, false, path, []⟩

def attempt {α : Type} (result : Except Bytes α) (describe : Bytes → Bytes) : Setup Fd α :=
  match result with
  | .ok a => pure a
  | .error errno => throw (describe errno)

def opened (fd : Fd) : Setup Fd Unit := modify fun s => { s with log := s.log ++ [.acquired fd] }

def close (fd : Fd) : Setup Fd Unit := modify fun s => { s with log := s.log ++ [.released fd] }

def setupSignals (calls : Calls Fd) : Setup Fd Unit := do
  attempt calls.sigprocmask (ascii "sigprocmask() failed: " ++ ·)
  let fd ← attempt calls.signalfd (ascii "signalfd() failed: " ++ ·)
  modify fun s => { s with signalFd := some fd, log := s.log ++ [.acquired fd] }

def pathHasLiveListener (calls : Calls Fd) : Setup Fd Bool :=
  match calls.probe with
  | none => pure false
  | some fd => do
      opened fd
      close fd
      pure calls.connect

/-- The directory of a path, up to its last slash; none for the root and for a bare name. -/
def socketDirectory (path : Bytes) : Option Bytes :=
  match path.reverse.dropWhile (· != 47) with
  | _ :: c :: rest => some (c :: rest).reverse
  | _ => none

def ensureSocketDirectory (calls : Calls Fd) (socketPath : Bytes) : Setup Fd Unit :=
  match socketDirectory socketPath with
  | none => pure ()
  | some dir =>
      match calls.mkdir with
      | .made => pure ()
      | .failed errno =>
          throw (ascii "failed to create socket directory '" ++ dir ++ ascii "': " ++ errno ++
            ascii (" (if running under systemd, set RuntimeDirectory=nshmqtt; " ++
              "otherwise create it manually, e.g. 'mkdir -p ") ++ dir ++ ascii "')")
      | .alreadyThere => do
          let isDirectory ← attempt calls.statDirectory
            (ascii "failed to stat socket directory '" ++ dir ++ ascii "': " ++ ·)
          if !isDirectory then
            throw (ascii "socket directory path '" ++ dir ++
              ascii "' exists but is not a directory")
          attempt calls.access
            (ascii "socket directory '" ++ dir ++ ascii "' exists but is not writable: " ++ ·)

/-- Remove what is at the path, if it is a socket and the probe found no listener. -/
def clearPath (calls : Calls Fd) (socketPath : Bytes) : Setup Fd Unit := do
  attempt calls.lstat (ascii "failed to stat socket path " ++ socketPath ++ ascii ": " ++ ·)
  let s ← get
  match s.path with
  | .nothing => pure ()
  | .file => throw (ascii "refusing to remove non-socket file at " ++ socketPath)
  | _ =>
      if ← pathHasLiveListener calls then
        throw (ascii "another process is already listening on " ++ socketPath ++
          ascii (" -- refusing to remove its socket. Stop that instance " ++
            "first, or configure a different socket= path."))
      attempt calls.unlinkStale
        (ascii "failed to remove stale socket " ++ socketPath ++ ascii ": " ++ ·)
      modify fun s => { s with path := .nothing, log := s.log ++ [.other s.path] }

/-- The room for a path in `sockaddr_un`. -/
def sunPathSize : Nat := 108

def setupSocket (calls : Calls Fd) (socketPath : Bytes) : Setup Fd Unit := do
  ensureSocketDirectory calls socketPath
  clearPath calls socketPath
  let fd ← attempt calls.socket (ascii "socket() failed: " ++ ·)
  modify fun s => { s with listenFd := some fd, log := s.log ++ [.acquired fd] }
  if socketPath.length ≥ sunPathSize then throw (ascii "socket path too long: " ++ socketPath)
  attempt calls.bind (ascii "bind(" ++ socketPath ++ ascii ") failed: " ++ ·)
  modify fun s => { s with socketCreated := true, path := .ownSocket }
  attempt calls.chmod (ascii "chmod(" ++ socketPath ++ ascii ") failed: " ++ ·)
  attempt calls.listen (ascii "listen() failed: " ++ ·)

/-- A call on a descriptor that is closed when the call fails. -/
def attemptOn (fd : Fd) (result : Except Bytes Unit) (describe : Bytes → Bytes) :
    Setup Fd Unit :=
  match result with
  | .ok () => pure ()
  | .error errno => do
      close fd
      throw (describe errno)

def bindOneTcp (family : Family) (calls : TcpCalls Fd) : Setup Fd Unit := do
  let fd ← attempt calls.socket (ascii "socket() failed for TCP listener: " ++ ·)
  opened fd
  attemptOn fd calls.reuseAddr (ascii "setsockopt(SO_REUSEADDR) failed: " ++ ·)
  if family = .inet6 then
    attemptOn fd calls.v6only (ascii "setsockopt(IPV6_V6ONLY) failed: " ++ ·)
  attemptOn fd calls.bind (ascii "bind() failed for TCP listener: " ++ ·)
  attemptOn fd calls.listen (ascii "listen() failed for TCP listener: " ++ ·)
  modify fun s => { s with tcpListenFds := s.tcpListenFds ++ [fd] }

def setupTcpListeners (cfg : Config) (calls : Calls Fd) : Setup Fd Unit :=
  if cfg.tcpPort = 0 then pure ()
  else if cfg.tcpAddress = [] then do
    bindOneTcp .inet calls.firstTcp
    bindOneTcp .inet6 calls.secondTcp
  else if calls.isIPv4 cfg.tcpAddress then bindOneTcp .inet calls.firstTcp
  else if calls.isIPv6 cfg.tcpAddress then bindOneTcp .inet6 calls.firstTcp
  else throw (ascii "invalid tcp_address: " ++ cfg.tcpAddress)

def init (cfg : Config) (calls : Calls Fd) : Setup Fd Unit := do
  setupSignals calls
  setupSocket calls cfg.socketPath
  setupTcpListeners cfg calls
  modify fun s => { s with hasPool := true }

def Server.closeListen (s : Server Fd) : Server Fd :=
  { s with listenFd := none, log := s.log ++ s.listenFd.toList.map .released }

def Server.closeTcp (s : Server Fd) : Server Fd :=
  { s with tcpListenFds := [], log := s.log ++ s.tcpListenFds.map .released }

def Server.closeSignal (s : Server Fd) : Server Fd :=
  { s with signalFd := none, log := s.log ++ s.signalFd.toList.map .released }

/-- The own socket is removed from the path; a failure is only logged. -/
def Server.unlinkOwn (calls : Calls Fd) (s : Server Fd) : Server Fd :=
  if s.socketCreated then
    match calls.unlinkOwn with
    | .ok () =>
        { s with socketCreated := false, path := .nothing, log := s.log ++ [.other s.path] }
    | .error _ => { s with socketCreated := false }
  else s

/-- At the end of `run`. -/
def cleanup (calls : Calls Fd) (s : Server Fd) : Server Fd :=
  (({ s with hasPool := false }.closeListen.closeTcp).unlinkOwn calls).closeSignal

/-- `~Server`. -/
def destroy (calls : Calls Fd) (s : Server Fd) : Server Fd :=
  ({ s with hasPool := false }.closeListen.closeTcp.closeSignal).unlinkOwn calls

/-- A server from its start to its end, with `run` in between if it could start. -/
def lifetime (cfg : Config) (calls : Calls Fd) (path : PathEntry) :
    Except Bytes Unit × Server Fd :=
  match ending (init cfg calls) (start path) with
  | (.ok (), s) => (.ok (), destroy calls (cleanup calls s))
  | (.error e, s) => (.error e, destroy calls s)

/-- The descriptors that the server knows. -/
def Server.held (s : Server Fd) : List Fd :=
  s.listenFd.toList ++ s.tcpListenFds ++ s.signalFd.toList

/-- A socket that the probe could not connect to. -/
def Refused (calls : Calls Fd) (entry : PathEntry) : Prop :=
  entry = .socket ∧ calls.probe.isSome = true ∧ calls.connect = false

/-- A socket that was not probed, as the probe itself could not be opened.  Somebody may be
listening there. -/
def Unprobed (calls : Calls Fd) (entry : PathEntry) : Prop :=
  entry = .socket ∧ calls.probe = none

/-- What holds of the path at any moment: an own socket is left to be removed, unless that
failed, and what was there at first is still there, unless it was nothing or a socket that refused
the probe or was not probed. -/
structure PathSound (calls : Calls Fd) (initial : PathEntry) (s : Server Fd) : Prop where
  foreign : initial ≠ .ownSocket
  created : s.socketCreated = true → s.path = .ownSocket
  own : s.path = .ownSocket → s.socketCreated = true ∨ ∃ errno, calls.unlinkOwn = .error errno
  removed : ∀ entry, .other entry ∈ s.log →
    Refused calls entry ∨ Unprobed calls entry ∨ entry = .ownSocket
  kept : s.path = initial ∨ initial = .nothing ∨ Refused calls initial ∨ Unprobed calls initial

structure Sound [DecidableEq Fd] (calls : Calls Fd) (initial : PathEntry) (s : Server Fd) :
    Prop where
  fds : Holds s.held s.log
  path : PathSound calls initial s

variable {α : Type} {calls : Calls Fd} {initial : PathEntry} {s : Server Fd}

/-- A call that fails ends with its text, and the state is as it was. -/
theorem meets_attempt {pre : Server Fd → Prop} {fail : Bytes → Server Fd → Prop}
    {result : Except Bytes α} {describe : Bytes → Bytes}
    (hfail : ∀ e s, pre s → fail (describe e) s) :
    Meets pre (attempt result describe) (fun _ => pre) fail := by
  cases result with
  | ok a => exact meets_pure fun _ h => h
  | error errno => exact meets_throw fun s h => hfail errno s h

/-- The log grows by a descriptor. -/
theorem PathSound.logged (h : PathSound calls initial s) {t : Server Fd}
    (hcreated : t.socketCreated = s.socketCreated) (hpath : t.path = s.path)
    (hlog : ∀ entry, .other entry ∈ t.log → .other entry ∈ s.log) :
    PathSound calls initial t where
  foreign := h.foreign
  created hown := by
    rw [hpath]
    exact h.created (hcreated ▸ hown)
  own hown := by
    rw [hcreated]
    exact h.own (hpath ▸ hown)
  removed entry hentry := h.removed entry (hlog entry hentry)
  kept := by
    rw [hpath]
    exact h.kept

/-- A descriptor that is opened is no entry that is removed. -/
theorem not_other_acquired {log : List (Entry Fd PathEntry)} {entry : PathEntry} {fd : Fd}
    (h : .other entry ∈ log ++ [.acquired fd]) : .other entry ∈ log := by
  simpa using h

theorem not_other_released {log : List (Entry Fd PathEntry)} {entry : PathEntry} {fds : List Fd}
    (h : .other entry ∈ log ++ fds.map .released) : .other entry ∈ log := by
  simpa using h

variable [DecidableEq Fd]

/-- Before the sockets. -/
def Blank (calls : Calls Fd) (initial : PathEntry) (s : Server Fd) : Prop :=
  Sound calls initial s ∧ s.listenFd = none ∧ s.tcpListenFds = [] ∧ s.socketCreated = false

/-- `setup_signals` opens the signal descriptor or nothing. -/
theorem setupSignals_meets :
    Meets (fun s => Blank calls initial s ∧ s.signalFd = none) (setupSignals calls)
      (fun _ s => Blank calls initial s ∧ s.signalFd.isSome = true)
      (fun _ => Sound calls initial) := by
  refine meets_bind _ (meets_attempt fun _ s h => h.1.1) fun _ => ?_
  refine meets_bind _ (meets_attempt fun _ s h => h.1.1) fun fd => ?_
  refine meets_modify fun s h => ?_
  obtain ⟨⟨⟨hfds, hpath⟩, hlisten, htcp, hcreated⟩, hsignal⟩ := h
  refine ⟨⟨⟨?_, hpath.logged rfl rfl fun _ => not_other_acquired⟩, hlisten, htcp, hcreated⟩, rfl⟩
  have hacquired := hfds.acquire fd
  simpa [Server.held, hlisten, htcp, hsignal] using hacquired

/-- With the signal descriptor, before the sockets. -/
def Ready (calls : Calls Fd) (initial : PathEntry) (s : Server Fd) : Prop :=
  Blank calls initial s ∧ s.signalFd.isSome = true

/-- `ensure_socket_directory` opens nothing and removes nothing. -/
theorem ensureSocketDirectory_meets (socketPath : Bytes) :
    Meets (Ready calls initial) (ensureSocketDirectory calls socketPath)
      (fun _ => Ready calls initial) (fun _ => Sound calls initial) := by
  unfold ensureSocketDirectory
  cases socketDirectory socketPath with
  | none => exact meets_pure fun _ h => h
  | some dir =>
      cases hmkdir : calls.mkdir with
      | made => exact meets_pure fun _ h => h
      | failed errno => exact meets_throw fun _ h => h.1.1
      | alreadyThere =>
          refine meets_bind _ (meets_attempt fun _ _ h => h.1.1) fun isDirectory => ?_
          cases isDirectory with
          | false => exact meets_throw_bind fun _ h => h.1.1
          | true =>
              simp only [Bool.not_true, Bool.false_eq_true, if_false]
              exact meets_attempt fun _ _ h => h.1.1

/-- The probe's descriptor is closed again. -/
theorem pathHasLiveListener_meets (entry : PathEntry) :
    Meets (fun s => Ready calls initial s ∧ s.path = entry) (pathHasLiveListener calls)
      (fun answered s => (Ready calls initial s ∧ s.path = entry) ∧
        (answered = false → calls.probe.isSome = true ∧ calls.connect = false ∨ calls.probe = none))
      (fun _ => Sound calls initial) := by
  unfold pathHasLiveListener
  cases hprobe : calls.probe with
  | none => exact meets_pure fun _ h => ⟨h, fun _ => .inr rfl⟩
  | some fd =>
      refine meets_bind (fun _ s => Holds (fd :: s.held) s.log ∧ PathSound calls initial s ∧
        (s.listenFd = none ∧ s.tcpListenFds = [] ∧ s.socketCreated = false) ∧
          s.signalFd.isSome = true ∧ s.path = entry)
        (meets_modify fun s h => ?_) fun _ => ?_
      · obtain ⟨⟨⟨⟨hfds, hpath⟩, hblank⟩, hsignal⟩, hentry⟩ := h
        exact ⟨hfds.acquire fd, hpath.logged rfl rfl fun _ => not_other_acquired, hblank, hsignal,
          hentry⟩
      · refine meets_bind (fun _ s => Ready calls initial s ∧ s.path = entry)
          (meets_modify fun s h => ?_) fun _ => meets_pure fun _ h => ⟨h, ?_⟩
        · obtain ⟨hfds, hpath, hblank, hsignal, hentry⟩ := h
          have hreleased := hpath.logged (t := { s with log := s.log ++ [.released fd] }) rfl rfl
            fun _ => @not_other_released _ _ _ [fd]
          exact ⟨⟨⟨⟨hfds.release, hreleased⟩, hblank⟩, hsignal⟩, hentry⟩
        · exact fun hconnect => .inl ⟨rfl, hconnect⟩

omit [DecidableEq Fd] in
/-- What is at the path is removed. -/
theorem PathSound.unlinked (h : PathSound calls initial s) {t : Server Fd}
    (hcreated : t.socketCreated = false) (hpath : t.path = .nothing)
    (hlog : t.log = s.log ++ [.other s.path])
    (hentry : Refused calls s.path ∨ Unprobed calls s.path ∨ s.path = .ownSocket) :
    PathSound calls initial t where
  foreign := h.foreign
  created hown := by
    rw [hcreated] at hown
    cases hown
  own hown := by
    rw [hpath] at hown
    cases hown
  removed entry hmem := by
    rw [hlog, List.mem_append, List.mem_singleton] at hmem
    rcases hmem with hmem | hmem
    · exact h.removed entry hmem
    · cases hmem
      exact hentry
  kept := by
    rcases h.kept with hsame | hothers
    · rcases hentry with hrefused | hunprobed | hown
      · exact .inr (.inr (.inl (hsame ▸ hrefused)))
      · exact .inr (.inr (.inr (hsame ▸ hunprobed)))
      · exact absurd (hsame.symm.trans hown) h.foreign
    · exact .inr hothers

/-- What is at the path is removed, or it was nothing. -/
theorem clearPath_meets (socketPath : Bytes) :
    Meets (Ready calls initial) (clearPath calls socketPath)
      (fun _ s => Ready calls initial s ∧ s.path = .nothing) (fun _ => Sound calls initial) := by
  unfold clearPath
  refine meets_bind _ (meets_attempt fun _ _ h => h.1.1) fun _ => ?_
  refine meets_get fun s => ?_
  cases hentry : s.path with
  | nothing =>
      refine meets_pure fun t ht => ?_
      obtain ⟨rfl, hready⟩ := ht
      exact ⟨hready, hentry⟩
  | file =>
      refine meets_throw fun t ht => ?_
      exact ht.2.1.1
  | socket | ownSocket =>
      refine meets_bind (fun answered t => (Ready calls initial t ∧ t.path = s.path) ∧
        (answered = false → calls.probe.isSome = true ∧ calls.connect = false ∨ calls.probe = none))
        ((pathHasLiveListener_meets s.path).weaken ?_ (fun _ _ h => h) fun _ _ h => h)
        fun answered => ?_
      · intro t ht
        obtain ⟨rfl, hready⟩ := ht
        exact ⟨hready, rfl⟩
      · cases answered with
        | true => exact meets_throw_bind fun _ h => h.1.1.1.1
        | false =>
            simp only [Bool.false_eq_true, if_false]
            refine meets_bind _ (meets_attempt fun _ _ h => h.1.1.1.1) fun _ => ?_
            refine meets_modify fun t h => ?_
            obtain ⟨⟨⟨⟨⟨hfds, hpath⟩, hlisten, htcp, hcreated⟩, hsignal⟩, hsame⟩, hprobe⟩ := h
            have hremoved : Refused calls t.path ∨ Unprobed calls t.path ∨ t.path = .ownSocket := by
              rw [hsame, hentry, Refused, Unprobed]
              rcases hprobe trivial with hrefused | hnone
              · simp [hrefused]
              · simp [hnone]
            exact ⟨⟨⟨⟨hfds.note t.path, hpath.unlinked hcreated rfl rfl hremoved⟩, hlisten, htcp,
              hcreated⟩, hsignal⟩, rfl⟩

/-- The Unix socket is bound, with `n` TCP listeners. -/
def Listening (calls : Calls Fd) (initial : PathEntry) (n : Nat) (s : Server Fd) : Prop :=
  Sound calls initial s ∧ s.signalFd.isSome = true ∧ s.listenFd.isSome = true ∧
    s.path = .ownSocket ∧ s.socketCreated = true ∧ s.tcpListenFds.length = n

/-- **`setup_socket`** ends with an own socket, or with an error and all its descriptors known. -/
theorem setupSocket_meets (socketPath : Bytes) :
    Meets (Ready calls initial) (setupSocket calls socketPath)
      (fun _ => Listening calls initial 0) (fun _ => Sound calls initial) := by
  unfold setupSocket
  refine meets_bind _ (ensureSocketDirectory_meets socketPath) fun _ => ?_
  refine meets_bind _ (clearPath_meets socketPath) fun _ => ?_
  refine meets_bind _ (meets_attempt fun _ _ h => h.1.1.1) fun fd => ?_
  -- from here on the descriptor is the server's, and the path is still nothing
  refine meets_bind (fun _ s => (Sound calls initial s ∧ s.signalFd.isSome = true ∧
    s.listenFd.isSome = true ∧ s.tcpListenFds = []) ∧ s.path = .nothing)
    (meets_modify fun s h => ?_) fun _ => ?_
  · obtain ⟨⟨⟨⟨hfds, hpath⟩, hlisten, htcp, hcreated⟩, hsignal⟩, hnothing⟩ := h
    refine ⟨⟨⟨?_, hpath.logged rfl rfl fun _ => not_other_acquired⟩, hsignal, rfl, htcp⟩, hnothing⟩
    have hacquired := hfds.acquire fd
    simpa [Server.held, hlisten, htcp] using hacquired
  · split
    · exact meets_throw_bind fun _ h => h.1.1
    · refine meets_bind _ (meets_attempt fun _ _ h => h.1.1) fun _ => ?_
      refine meets_bind (fun _ => Listening calls initial 0) (meets_modify fun s h => ?_) fun _ => ?_
      · obtain ⟨⟨⟨hfds, hpath⟩, hsignal, hlisten, htcp⟩, hnothing⟩ := h
        refine ⟨⟨hfds, hpath.foreign, fun _ => rfl, fun _ => .inl rfl, hpath.removed, ?_⟩, hsignal,
          hlisten, rfl, rfl, by rw [htcp]; rfl⟩
        rcases hpath.kept with hsame | hothers
        · exact .inr (.inl (hsame.symm.trans hnothing))
        · exact .inr hothers
      · refine meets_bind _ (meets_attempt fun _ _ h => h.1) fun _ => ?_
        exact meets_attempt fun _ _ h => h.1

/-- As before, with a descriptor that the server does not know yet. -/
def Opened (calls : Calls Fd) (initial : PathEntry) (n : Nat) (fd : Fd) (s : Server Fd) : Prop :=
  Holds (fd :: s.held) s.log ∧ PathSound calls initial s ∧ s.signalFd.isSome = true ∧
    s.listenFd.isSome = true ∧ s.path = .ownSocket ∧ s.socketCreated = true ∧
    s.tcpListenFds.length = n

/-- A descriptor is closed when a call on it fails. -/
theorem attemptOn_meets {n : Nat} {fd : Fd} {result : Except Bytes Unit}
    {describe : Bytes → Bytes} :
    Meets (Opened calls initial n fd) (attemptOn fd result describe)
      (fun _ => Opened calls initial n fd) (fun _ => Sound calls initial) := by
  cases result with
  | ok => exact meets_pure fun _ h => h
  | error errno =>
      refine meets_bind (fun _ => Sound calls initial) (meets_modify fun s h => ?_) fun _ =>
        meets_throw fun _ h => h
      exact ⟨h.1.release, h.2.1.logged rfl rfl fun _ => @not_other_released _ _ _ [fd]⟩

/-- `bind_one_tcp` adds one listener. -/
theorem bindOneTcp_meets {n : Nat} (family : Family) (tcp : TcpCalls Fd) :
    Meets (Listening calls initial n) (bindOneTcp family tcp)
      (fun _ => Listening calls initial (n + 1)) (fun _ => Sound calls initial) := by
  unfold bindOneTcp
  refine meets_bind _ (meets_attempt fun _ _ h => h.1) fun fd => ?_
  refine meets_bind (fun _ => Opened calls initial n fd) (meets_modify fun s h => ?_) fun _ => ?_
  · obtain ⟨⟨hfds, hpath⟩, hrest⟩ := h
    exact ⟨hfds.acquire fd, hpath.logged rfl rfl fun _ => not_other_acquired, hrest⟩
  refine meets_bind _ attemptOn_meets fun _ => ?_
  have hlast : Meets (Opened calls initial n fd) (do
      attemptOn fd tcp.bind (ascii "bind() failed for TCP listener: " ++ ·)
      attemptOn fd tcp.listen (ascii "listen() failed for TCP listener: " ++ ·)
      modify fun s => { s with tcpListenFds := s.tcpListenFds ++ [fd] })
      (fun _ => Listening calls initial (n + 1)) (fun _ => Sound calls initial) := by
    refine meets_bind _ attemptOn_meets fun _ => meets_bind _ attemptOn_meets fun _ => ?_
    refine meets_modify fun s h => ?_
    obtain ⟨hfds, hpath, hsignal, hlisten, hown, hcreated, htcp⟩ := h
    refine ⟨⟨hfds.perm ?_, hpath.logged rfl rfl fun _ h => h⟩, hsignal, hlisten, hown, hcreated, ?_⟩
    · simp only [Server.held, List.append_assoc, List.singleton_append]
      rw [← List.append_assoc, ← List.append_assoc]
      exact List.perm_middle.symm
    · simp [htcp]
  split
  · exact meets_bind _ attemptOn_meets fun _ => hlast
  · exact hlast

/-- The number of TCP listeners. -/
def tcpListeners (cfg : Config) : Nat :=
  if cfg.tcpPort = 0 then 0 else if cfg.tcpAddress = [] then 2 else 1

/-- `setup_tcp_listeners` adds those that are configured. -/
theorem setupTcpListeners_meets (cfg : Config) :
    Meets (Listening calls initial 0) (setupTcpListeners cfg calls)
      (fun _ => Listening calls initial (tcpListeners cfg)) (fun _ => Sound calls initial) := by
  unfold setupTcpListeners tcpListeners
  split_ifs
  · exact meets_pure fun _ h => h
  · exact meets_bind _ (bindOneTcp_meets .inet _) fun _ => bindOneTcp_meets .inet6 _
  · exact bindOneTcp_meets .inet _
  · exact bindOneTcp_meets .inet6 _
  · exact meets_throw fun _ h => h.1

/-- **The start**, with all listeners or with an error. -/
theorem init_meets (cfg : Config) :
    Meets (fun s => Blank calls initial s ∧ s.signalFd = none) (init cfg calls)
      (fun _ s => Listening calls initial (tcpListeners cfg) s ∧ s.hasPool = true)
      (fun _ => Sound calls initial) := by
  unfold init
  refine meets_bind _ setupSignals_meets fun _ => ?_
  refine meets_bind _ (setupSocket_meets cfg.socketPath) fun _ => ?_
  refine meets_bind _ (setupTcpListeners_meets cfg) fun _ => ?_
  refine meets_modify fun s h => ?_
  obtain ⟨⟨hfds, hpath⟩, hrest⟩ := h
  exact ⟨⟨⟨hfds, hpath.logged rfl rfl fun _ h => h⟩, hrest⟩, rfl⟩

/-- The Unix listener is closed once. -/
theorem sound_closeListen (h : Sound calls initial s) :
    Sound calls initial s.closeListen ∧ s.closeListen.listenFd = none := by
  refine ⟨⟨?_, h.path.logged rfl rfl fun _ => not_other_released⟩, rfl⟩
  have hfds := h.fds
  simp only [Server.held, List.append_assoc] at hfds
  exact hfds.releaseAll

theorem sound_closeTcp (h : Sound calls initial s) : Sound calls initial s.closeTcp := by
  refine ⟨?_, h.path.logged rfl rfl fun _ => not_other_released⟩
  have hfds : Holds (s.tcpListenFds ++ (s.listenFd.toList ++ s.signalFd.toList)) s.log := by
    refine h.fds.perm ?_
    simp only [Server.held, List.append_assoc]
    rw [← List.append_assoc, ← List.append_assoc]
    exact List.perm_append_comm.append_right _
  simpa [Server.held, Server.closeTcp] using hfds.releaseAll

theorem sound_closeSignal (h : Sound calls initial s) : Sound calls initial s.closeSignal := by
  refine ⟨?_, h.path.logged rfl rfl fun _ => not_other_released⟩
  have hfds : Holds (s.signalFd.toList ++ (s.listenFd.toList ++ s.tcpListenFds)) s.log :=
    h.fds.perm List.perm_append_comm
  simpa [Server.held, Server.closeSignal] using hfds.releaseAll

/-- Only an own socket is removed. -/
theorem sound_unlinkOwn (h : Sound calls initial s) : Sound calls initial (s.unlinkOwn calls) := by
  unfold Server.unlinkOwn
  split
  · rename_i hcreated
    have hown := h.path.created hcreated
    cases hunlink : calls.unlinkOwn with
    | ok => exact ⟨h.fds.note s.path, h.path.unlinked rfl rfl rfl (.inr (.inr hown))⟩
    | error errno =>
        exact ⟨h.fds, h.path.foreign, fun hfalse => absurd hfalse Bool.false_ne_true,
          fun _ => .inr ⟨errno, hunlink⟩, h.path.removed, h.path.kept⟩
  · exact h

omit [DecidableEq Fd] in
/-- The own socket is not removed twice. -/
theorem not_created_unlinkOwn : (s.unlinkOwn calls).socketCreated = false := by
  unfold Server.unlinkOwn
  split
  · split <;> rfl
  · exact Bool.eq_false_iff.mpr ‹_›

/-- What is left of a server that was sound. -/
structure Ended (calls : Calls Fd) (initial : PathEntry) (t : Server Fd) : Prop where
  closed : Holds [] t.log
  removed : ∀ entry, .other entry ∈ t.log →
    Refused calls entry ∨ Unprobed calls entry ∨ entry = .ownSocket
  kept : t.path = initial ∨ initial = .nothing ∨ Refused calls initial ∨ Unprobed calls initial
  gone : calls.unlinkOwn = .ok () → t.path ≠ .ownSocket

/-- The destructor leaves nothing open. -/
theorem ended_destroy (h : Sound calls initial s) : Ended calls initial (destroy calls s) := by
  have hpool : Sound calls initial { s with hasPool := false } :=
    ⟨h.fds, h.path.logged rfl rfl fun _ hmem => hmem⟩
  have hclosed := sound_closeSignal (sound_closeTcp (sound_closeListen hpool).1)
  have hend := sound_unlinkOwn hclosed
  refine ⟨?_, hend.path.removed, hend.path.kept, fun hunlink hown => ?_⟩
  · have hfds := hend.fds
    have hheld : (destroy calls s).held = [] := by
      unfold destroy Server.unlinkOwn
      split
      · split <;> rfl
      · rfl
    change Holds (destroy calls s).held _ at hfds
    rwa [hheld] at hfds
  · rcases hend.path.own hown with hcreated | ⟨errno, herror⟩
    · rw [not_created_unlinkOwn] at hcreated
      cases hcreated
    · rw [hunlink] at herror
      cases herror

/-- `cleanup` can come before it. -/
theorem sound_cleanup (h : Sound calls initial s) : Sound calls initial (cleanup calls s) := by
  have hpool : Sound calls initial { s with hasPool := false } :=
    ⟨h.fds, h.path.logged rfl rfl fun _ hmem => hmem⟩
  exact sound_closeSignal (sound_unlinkOwn (sound_closeTcp (sound_closeListen hpool).1))

/-- At first nothing is open. -/
theorem blank_start (calls : Calls Fd) {path : PathEntry} (hpath : path ≠ .ownSocket) :
    Blank calls path (start path) ∧ (start path : Server Fd).signalFd = none :=
  ⟨⟨⟨Holds.nil, hpath, fun h => absurd h Bool.false_ne_true, fun h => absurd h hpath,
    fun _ h => absurd h List.not_mem_nil, .inl rfl⟩, rfl, rfl, rfl⟩, rfl⟩

/-- Every call succeeds, and nobody answers the probe. -/
def quietCalls : Calls Nat where
  sigprocmask := .ok ()
  signalfd := .ok 3
  mkdir := .alreadyThere
  statDirectory := .ok true
  access := .ok ()
  lstat := .ok ()
  probe := some 4
  connect := false
  unlinkStale := .ok ()
  socket := .ok 4
  bind := .ok ()
  chmod := .ok ()
  listen := .ok ()
  isIPv4 _ := false
  isIPv6 _ := false
  firstTcp := ⟨.ok 5, .ok (), .ok (), .ok (), .ok ()⟩
  secondTcp := ⟨.ok 6, .ok (), .ok (), .ok (), .ok ()⟩
  unlinkOwn := .ok ()

end ListenerSetup

end Nshmqtt

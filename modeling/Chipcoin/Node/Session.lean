import Chipcoin.Node.Codec

/-!
# Peer sessions

`PeerProtocol`: one session with a peer. Its reader task receives frames, decodes them and handles
the messages one after another; wherever it awaits, other tasks run. These are `start`, which sends
the version of an outbound session, and whoever calls `close`. A session is a state machine over the
points where control returns to the event loop, and every interleaving is a list of events. Events
that are not possible in a state leave it as it is.

* `Session.step`, `Session.run`: the machine. The history records what was received, sent and
  handed to the callback.
* `Tracks`: the flags of a session say what is in its history, and a reader that waits for frames
  has answered the version that it has received.
-/

namespace Chipcoin

open Checked

/-! ### The state of a session -/

/-- `LocalPeerIdentity`. -/
structure LocalPeerIdentity where
  nodeId : PyStr
  network : PyStr
  startHeight : ℕ
  userAgent : PyStr
  protocolVersion : ℕ := 1
  relay : Bool := true
  networkMagic : Bytes

/-- The version message that `_send_version` sends. -/
def LocalPeerIdentity.versionMessage (identity : LocalPeerIdentity) : VersionMessage where
  protocolVersion := identity.protocolVersion
  network := identity.network
  nodeId := identity.nodeId
  startHeight := identity.startHeight
  userAgent := identity.userAgent
  relay := identity.relay

/-- `SessionState`. -/
structure SessionState where
  versionSent : Bool := false
  versionReceived : Bool := false
  verackSent : Bool := false
  verackReceived : Bool := false
  handshakeComplete : Bool := false
  closed : Bool := false
  remoteVersion : Option VersionMessage := none
  lastPingNonce : Option ℕ := none
  lastPongNonce : Option ℕ := none
  errors : List String := []
  errorCauses : List SessionError := []

/-- Where the reader task stands. -/
inductive ReaderTask
  /-- It awaits the next frame. -/
  | receiving
  /-- It awaits the end of a send, inside the handler of a message. -/
  | sendingVersion
  | sendingVerack
  | sendingPong (nonce : ℕ)
  /-- It awaits the callback. -/
  | calling
  /-- It has returned, or was cancelled by `close`. -/
  | returned
  /-- It has ended with an exception that nothing handles. -/
  | raised (error : SessionError)
deriving DecidableEq

/-- What a session has done with messages. -/
inductive Happening
  | received (message : MessageEnvelope)
  | sent (message : MessageEnvelope)
  /-- The callback was called with the message. -/
  | delivered (message : MessageEnvelope)
deriving DecidableEq

/-- What `PeerProtocol.__init__` fixes. -/
structure SessionConfig where
  identity : LocalPeerIdentity
  inbound : Bool
  /-- There is a callback `on_message`. -/
  listens : Bool

/-- A session with its reader task. -/
structure Session where
  state : SessionState := {}
  reader : ReaderTask := .receiving
  /-- `start` is sending the version. -/
  starting : Bool
  /-- Oldest first. -/
  history : List Happening := []

/-- What the event loop reports to a session. -/
inductive SessionEvent
  /-- `transport.receive` and `decode_message` end. -/
  | receive (result : Except SessionError MessageEnvelope)
  /-- The send or the callback that the reader awaits ends. -/
  | complete (result : Except SessionError Unit)
  /-- The send of `start` ends. -/
  | started (result : Except SessionError Unit)
  /-- `close` is called, by the callback that the reader awaits or by another task. -/
  | close (own : Bool) (reason : Option String) (error : Option SessionError)

/-! ### Steps -/

namespace Session

/-- `str(exc)`. -/
def messageOf : SessionError → String
  | .p2p error => error.message
  | .other (.stateless message) | .other (.contextual message) | .other (.validation message)
  | .other (.value message) | .other (.type message) | .other (.index message)
  | .other (.overflow message) | .other (.struct message) | .other (.integrity message)
  | .other (.runtime message) => message
  | .other (.key key) => s!"'{key}'"
  | .other .zeroDivision => "division by zero"

/-- The record that `close` makes. -/
def closeState (state : SessionState) (reason : Option String) (error : Option SessionError) :
    SessionState :=
  if state.closed then state
  else { state with
    closed := true
    errorCauses := state.errorCauses ++ error.toList
    errors := state.errors ++ (reason.or (error.map messageOf)).toList }

/-- `_update_handshake_state`. -/
def updateHandshakeState (state : SessionState) : SessionState :=
  { state with handshakeComplete :=
      state.versionSent && state.versionReceived && state.verackSent && state.verackReceived }

/-- The test of the reader loop, after a message has been handled. -/
def continueReading (session : Session) : Session :=
  { session with reader := if session.state.closed then .returned else .receiving }

/-- An exception inside the reader loop. An established session survives a timeout; any other
`P2PError` closes it; what is no `P2PError` ends the task and leaves the session open. -/
def readerRaises (session : Session) (error : SessionError) : Session :=
  match error with
  | .p2p cause =>
    if cause.kind = .transportTimeout ∧ session.state.handshakeComplete ∧
        ¬ session.state.closed then
      { session with
        state := { session.state with errors := session.state.errors ++ [cause.message] } }
        |>.continueReading
    else
      { session with
        state := closeState session.state (some cause.message) (some error)
        reader := .returned }
  | .other _ => { session with reader := .raised error }

/-- `_handle_version` once the local version has been sent where it must. -/
def answerVersion (session : Session) : Session :=
  if session.state.verackSent then
    continueReading { session with state := updateHandshakeState session.state }
  else { session with reader := .sendingVerack }

/-- `_handle_version` up to its first await. -/
def handleVersion (config : SessionConfig) (session : Session) (payload : VersionMessage) :
    Session :=
  if session.state.versionReceived then
    session.readerRaises (.p2p ⟨.handshakeFailed, "Peer sent duplicate version message."⟩)
  else if payload.network ≠ config.identity.network then
    session.readerRaises (.p2p ⟨.handshakeFailed, "Peer announced a different network."⟩)
  else
    let session := { session with state := { session.state with
      remoteVersion := some payload
      versionReceived := true } }
    if config.inbound ∧ ¬ session.state.versionSent then
      { session with reader := .sendingVersion }
    else session.answerVersion

/-- `handle_message` up to its first await. -/
def handleMessage (config : SessionConfig) (session : Session) (message : MessageEnvelope) :
    Session :=
  match message with
  | .version payload => session.handleVersion config payload
  | .verack =>
    continueReading { session with
      state := updateHandshakeState { session.state with verackReceived := true } }
  | .ping nonce =>
    { session with
      state := { session.state with lastPingNonce := some nonce }
      reader := .sendingPong nonce }
  | .pong nonce =>
    continueReading { session with
      state := { session.state with lastPongNonce := some nonce } }
  | message =>
    if config.listens then
      { session with history := session.history ++ [.delivered message], reader := .calling }
    else session.continueReading

/-- The message with which `_send_version` ends. -/
def versionSent (config : SessionConfig) (session : Session) : Session :=
  { session with
    state := { session.state with versionSent := true }
    history := session.history ++ [.sent (.version config.identity.versionMessage)] }

/-- What the reader awaits has ended without an exception. -/
def resume (config : SessionConfig) (session : Session) : Session :=
  match session.reader with
  | .sendingVersion => (session.versionSent config).answerVersion
  | .sendingVerack =>
    continueReading { session with
      state := updateHandshakeState { session.state with verackSent := true }
      history := session.history ++ [.sent .verack] }
  | .sendingPong nonce =>
    continueReading { session with history := session.history ++ [.sent (.pong nonce)] }
  | .calling => session.continueReading
  | _ => session

/-- The reader awaits the end of a send or of the callback. -/
def awaits : ReaderTask → Bool
  | .sendingVersion | .sendingVerack | .sendingPong _ | .calling => true
  | _ => false

/-- One event. -/
def step (config : SessionConfig) (session : Session) : SessionEvent → Session
  | .receive result =>
    if session.reader ≠ .receiving then session
    else match result with
      | .ok message =>
        handleMessage config
          { session with history := session.history ++ [.received message] } message
      | .error error => session.readerRaises error
  | .complete result =>
    if ¬ awaits session.reader then session
    else match result with
      | .ok () => session.resume config
      | .error error => session.readerRaises error
  | .started result =>
    if ¬ session.starting then session
    else match result with
      | .ok () => { session.versionSent config with starting := false }
      | .error _ => { session with starting := false }
  | .close own reason error =>
    let closed := { session with state := closeState session.state reason error }
    if own then
      -- The callback closes the session from within the reader task, which is then not cancelled.
      if session.reader = .calling then closed else session
    else match session.reader with
      | .raised _ => closed
      | _ => { closed with reader := .returned }

/-- A session after `start`: an outbound one is about to send its version. -/
def start (config : SessionConfig) : Session := { starting := ¬ config.inbound }

/-- A session after a list of events. -/
def run (config : SessionConfig) (events : List SessionEvent) : Session :=
  events.foldl (step config) (start config)

/-! ### Flags and history -/

/-- The flags of a state are what the history says. -/
structure Agrees (config : SessionConfig) (state : SessionState) (history : List Happening) :
    Prop where
  versionSent : state.versionSent ↔ .sent (.version config.identity.versionMessage) ∈ history
  versionReceived : state.versionReceived ↔
    ∃ payload, .received (.version payload) ∈ history ∧ payload.network = config.identity.network
  verackSent : state.verackSent ↔ .sent .verack ∈ history
  verackReceived : state.verackReceived ↔ .received .verack ∈ history
  /-- The handshake is complete only with all four flags. -/
  complete : state.handshakeComplete →
    state.versionSent ∧ state.versionReceived ∧ state.verackSent ∧ state.verackReceived

/-- Two states with the same flags. -/
structure SameFlags (state other : SessionState) : Prop where
  versionSent : state.versionSent = other.versionSent
  versionReceived : state.versionReceived = other.versionReceived
  verackSent : state.verackSent = other.verackSent
  verackReceived : state.verackReceived = other.verackReceived
  handshakeComplete : state.handshakeComplete = other.handshakeComplete

private theorem SameFlags.refl (state : SessionState) :
    SameFlags state state := ⟨rfl, rfl, rfl, rfl, rfl⟩

theorem SameFlags.closeState (state : SessionState) (reason : Option String)
    (error : Option SessionError) : SameFlags (closeState state reason error) state := by
  unfold Session.closeState
  split
  · exact .refl state
  · exact ⟨rfl, rfl, rfl, rfl, rfl⟩

section

variable {config : SessionConfig} {state other : SessionState} {history : List Happening}

private theorem Agrees.congr (h : Agrees config other history) (same : SameFlags state other) :
    Agrees config state history where
  versionSent := same.versionSent ▸ h.versionSent
  versionReceived := same.versionReceived ▸ h.versionReceived
  verackSent := same.verackSent ▸ h.verackSent
  verackReceived := same.verackReceived ▸ h.verackReceived
  complete := by
    rw [same.versionSent, same.versionReceived, same.verackSent, same.verackReceived,
      same.handshakeComplete]
    exact h.complete

/-- Recomputing `handshake_complete` keeps the agreement. -/
theorem Agrees.update (h : Agrees config state history) :
    Agrees config (updateHandshakeState state) history where
  versionSent := h.versionSent
  versionReceived := h.versionReceived
  verackSent := h.verackSent
  verackReceived := h.verackReceived
  complete := by
    intro hcomplete
    simp only [updateHandshakeState, Bool.and_eq_true] at hcomplete ⊢
    exact ⟨hcomplete.1.1.1, hcomplete.1.1.2, hcomplete.1.2, hcomplete.2⟩

/-- An entry about which no flag speaks. -/
def Silent (config : SessionConfig) (entry : Happening) : Prop :=
  entry ≠ .sent (.version config.identity.versionMessage) ∧ entry ≠ .sent .verack ∧
    entry ≠ .received .verack ∧
    ∀ payload, entry = .received (.version payload) → payload.network ≠ config.identity.network

section

variable (h : Agrees config state history)
include h

private theorem Agrees.append {entry : Happening} (silent : Silent config entry) :
    Agrees config state (history ++ [entry]) := by
  obtain ⟨hsent, hverack, hreceived, hversion⟩ := silent
  have hold : ∀ {other : Happening}, entry ≠ other →
      (other ∈ history ++ [entry] ↔ other ∈ history) := by
    intro other hne
    rw [List.mem_append, List.mem_singleton]
    exact or_iff_left hne.symm
  refine ⟨?_, ?_, ?_, ?_, h.complete⟩
  · rw [hold hsent]
    exact h.versionSent
  · rw [h.versionReceived]
    constructor
    · rintro ⟨payload, hmem, hnetwork⟩
      exact ⟨payload, List.mem_append_left _ hmem, hnetwork⟩
    · rintro ⟨payload, hmem, hnetwork⟩
      rcases List.mem_append.mp hmem with hmem | hmem
      · exact ⟨payload, hmem, hnetwork⟩
      · exact absurd hnetwork (hversion payload (List.mem_singleton.mp hmem).symm)
  · rw [hold hverack]
    exact h.verackSent
  · rw [hold hreceived]
    exact h.verackReceived

/-- The local version has been sent. -/
theorem Agrees.sendVersion :
    Agrees config { state with versionSent := true }
      (history ++ [.sent (.version config.identity.versionMessage)]) where
  versionSent := by simp
  versionReceived := by simpa using h.versionReceived
  verackSent := by simpa using h.verackSent
  verackReceived := by simpa using h.verackReceived
  complete := fun hcomplete => ⟨rfl, (h.complete hcomplete).2⟩

/-- The local verack has been sent. -/
theorem Agrees.sendVerack :
    Agrees config { state with verackSent := true } (history ++ [.sent .verack]) where
  versionSent := by simpa using h.versionSent
  versionReceived := by simpa using h.versionReceived
  verackSent := by simp
  verackReceived := by simpa using h.verackReceived
  complete := fun hcomplete =>
    have hflags := h.complete hcomplete
    ⟨hflags.1, hflags.2.1, rfl, hflags.2.2.2⟩

/-- The verack of the peer has been received. -/
theorem Agrees.receiveVerack :
    Agrees config { state with verackReceived := true } (history ++ [.received .verack]) where
  versionSent := by simpa using h.versionSent
  versionReceived := by simpa using h.versionReceived
  verackSent := by simpa using h.verackSent
  verackReceived := by simp
  complete := fun hcomplete =>
    have hflags := h.complete hcomplete
    ⟨hflags.1, hflags.2.1, hflags.2.2.1, rfl⟩

/-- A version for the local network has been received. -/
theorem Agrees.receiveVersion {payload : VersionMessage}
    (hnetwork : payload.network = config.identity.network) :
    Agrees config { state with remoteVersion := some payload, versionReceived := true }
      (history ++ [.received (.version payload)]) where
  versionSent := by simpa using h.versionSent
  versionReceived :=
    ⟨fun _ => ⟨payload, List.mem_append_right _ (List.mem_singleton_self _), hnetwork⟩,
      fun _ => rfl⟩
  verackSent := by simpa using h.verackSent
  verackReceived := by simpa using h.verackReceived
  complete := fun hcomplete =>
    have hflags := h.complete hcomplete
    ⟨hflags.1, rfl, hflags.2.2⟩

end

end

/-! ### The invariant -/

/-- **The invariant of a session.** Its flags are what its history says, and the reader has answered
the version of the peer when it is done with it. -/
structure Tracks (config : SessionConfig) (session : Session) : Prop where
  agrees : Agrees config session.state session.history
  /-- The reader is not busy with the version, so it has answered it. -/
  answered : session.reader = .receiving ∨ session.reader = .calling ∨
      (∃ nonce, session.reader = .sendingPong nonce) →
    session.state.versionReceived →
      session.state.verackSent ∧ (config.inbound → session.state.versionSent)
  sendingVersion : session.reader = .sendingVersion → config.inbound
  sendingVerack : session.reader = .sendingVerack → config.inbound → session.state.versionSent

section

variable {config : SessionConfig} {session : Session}

private theorem tracks_start (config : SessionConfig) : Tracks config (start config) where
  agrees := ⟨by simp [start], by simp [start], by simp [start], by simp [start], by simp [start]⟩
  answered := by simp [start]
  sendingVersion := by simp [start]
  sendingVerack := by simp [start]

/-- A message has been handled. -/
theorem Agrees.tracks_continueReading (h : Agrees config session.state session.history)
    (hanswered : session.state.versionReceived →
      session.state.verackSent ∧ (config.inbound → session.state.versionSent)) :
    Tracks config session.continueReading where
  agrees := h
  answered := fun _ => hanswered
  sendingVersion := by
    unfold continueReading
    split_ifs <;> simp
  sendingVerack := by
    unfold continueReading
    split_ifs <;> simp

/-- **Exceptions keep the invariant.** A session that survives one is established, and so it has
answered the version. -/
theorem Agrees.tracks_readerRaises (h : Agrees config session.state session.history)
    (error : SessionError) : Tracks config (session.readerRaises error) := by
  unfold readerRaises
  split
  · next cause =>
    split_ifs with hsurvives
    · obtain ⟨-, hcomplete, -⟩ := hsurvives
      obtain ⟨hsent, -, hverack, -⟩ := h.complete hcomplete
      refine Agrees.tracks_continueReading (h.congr ⟨rfl, rfl, rfl, rfl, rfl⟩) fun _ => ?_
      exact ⟨hverack, fun _ => hsent⟩
    · exact ⟨h.congr (.closeState ..), by simp, by simp, by simp⟩
  · exact ⟨h, by simp, by simp, by simp⟩

private theorem Agrees.tracks_answerVersion (h : Agrees config session.state session.history)
    (hsent : config.inbound → session.state.versionSent) :
    Tracks config session.answerVersion := by
  unfold answerVersion
  split_ifs with hverack
  · exact Agrees.tracks_continueReading h.update fun _ => ⟨hverack, hsent⟩
  · exact ⟨h, by simp, by simp, fun _ => hsent⟩

section

variable (h : Tracks config session)
include h

private theorem Tracks.handleVersion (payload : VersionMessage) :
    Tracks config (handleVersion config
      { session with history := session.history ++ [.received (.version payload)] } payload) := by
  unfold Session.handleVersion
  dsimp only
  split_ifs with hreceived hnetwork hsends
  · -- A second version: the flag is set already, whatever network the message names.
    refine Agrees.tracks_readerRaises ?_ _
    by_cases hnetwork : payload.network = config.identity.network
    · exact (h.agrees.receiveVersion hnetwork).congr ⟨rfl, hreceived, rfl, rfl, rfl⟩
    · refine h.agrees.append ⟨by simp, by simp, by simp, ?_⟩
      rintro _ ⟨⟩
      exact hnetwork
  · refine Agrees.tracks_readerRaises (h.agrees.append ⟨by simp, by simp, by simp, ?_⟩) _
    rintro _ ⟨⟩
    exact hnetwork
  · exact ⟨h.agrees.receiveVersion (not_not.mp hnetwork), by simp, fun _ => hsends.1, by simp⟩
  · refine Agrees.tracks_answerVersion (h.agrees.receiveVersion (not_not.mp hnetwork)) ?_
    intro hinbound
    by_contra hnot
    exact hsends ⟨hinbound, hnot⟩

private theorem Tracks.handleMessage (hreader : session.reader = .receiving)
    (message : MessageEnvelope) :
    Tracks config (handleMessage config
      { session with history := session.history ++ [.received message] } message) := by
  have hanswered := h.answered (.inl hreader)
  -- Only the version and the verack are recorded in the flags.
  have hsilent : ∀ {entry : Happening}, (∀ other, entry ≠ .sent other) →
      entry ≠ .received .verack → (∀ payload, entry ≠ .received (.version payload)) →
      Agrees config session.state (session.history ++ [entry]) := by
    intro entry hsent hverack hversion
    refine h.agrees.append ⟨hsent _, hsent _, hverack, ?_⟩
    intro payload heq
    exact absurd heq (hversion payload)
  unfold Session.handleMessage
  split
  · next payload => exact h.handleVersion payload
  · exact Agrees.tracks_continueReading h.agrees.receiveVerack.update hanswered
  · next nonce =>
    refine ⟨(hsilent (by simp) (by simp) (by simp)).congr ⟨rfl, rfl, rfl, rfl, rfl⟩, ?_, by simp,
      by simp⟩
    exact fun _ => hanswered
  · next nonce =>
    exact Agrees.tracks_continueReading
      ((hsilent (by simp) (by simp) (by simp)).congr ⟨rfl, rfl, rfl, rfl, rfl⟩) hanswered
  · next hversion hverack _ _ =>
    have hreceived : Agrees config session.state (session.history ++ [.received message]) := by
      refine hsilent (by simp) ?_ ?_
      · rintro ⟨⟩
        exact hverack rfl
      · rintro payload ⟨⟩
        exact hversion payload rfl
    split_ifs
    · refine ⟨hreceived.append ⟨by simp, by simp, by simp, by simp⟩, ?_, by simp, by simp⟩
      exact fun _ => hanswered
    · exact Agrees.tracks_continueReading hreceived hanswered

private theorem Tracks.resume : Tracks config (session.resume config) := by
  unfold Session.resume
  split
  · next hreader =>
    exact Agrees.tracks_answerVersion h.agrees.sendVersion fun _ => rfl
  · next hreader =>
    exact Agrees.tracks_continueReading h.agrees.sendVerack.update
      fun _ => ⟨rfl, h.sendingVerack hreader⟩
  · next nonce hreader =>
    refine Agrees.tracks_continueReading (h.agrees.append ⟨by simp, by simp, by simp, by simp⟩) ?_
    exact h.answered (.inr (.inr ⟨nonce, hreader⟩))
  · next hreader =>
    exact Agrees.tracks_continueReading h.agrees (h.answered (.inr (.inl hreader)))
  · exact h

/-- **A step keeps the invariant.** -/
theorem Tracks.step (event : SessionEvent) : Tracks config (session.step config event) := by
  cases event with
  | receive result =>
    dsimp only [Session.step]
    split_ifs with hreader
    · exact h
    · split
      · exact h.handleMessage (not_not.mp hreader) _
      · exact h.agrees.tracks_readerRaises _
  | complete result =>
    dsimp only [Session.step]
    split_ifs
    · split
      · exact h.resume
      · exact h.agrees.tracks_readerRaises _
    · exact h
  | started result =>
    dsimp only [Session.step]
    split_ifs
    · split
      · -- The local version is out: what was answered stays answered.
        exact ⟨h.agrees.sendVersion, fun hreader hreceived =>
          ⟨(h.answered hreader hreceived).1, fun _ => rfl⟩, h.sendingVersion, fun _ _ => rfl⟩
      · exact ⟨h.agrees, h.answered, h.sendingVersion, h.sendingVerack⟩
    · exact h
  | close own reason error =>
    have hsame := SameFlags.closeState session.state reason error
    have hagrees := h.agrees.congr hsame
    dsimp only [Session.step]
    split_ifs with hown hcalling
    · -- The callback itself closes: the reader is still in its call.
      refine ⟨hagrees, ?_, h.sendingVersion, ?_⟩
      · rw [hsame.versionReceived, hsame.verackSent, hsame.versionSent]
        exact h.answered
      · rw [hsame.versionSent]
        exact h.sendingVerack
    · exact h
    · split
      · next error hraised =>
        refine ⟨hagrees, ?_, ?_, ?_⟩ <;> simp [hraised]
      · exact ⟨hagrees, by simp, by simp, by simp⟩

end

/-- **Every session tracks its history.** -/
theorem tracks_run (config : SessionConfig) (events : List SessionEvent) :
    Tracks config (run config events) := by
  unfold run
  induction events using List.reverseRecOn with
  | nil => exact tracks_start config
  | append_singleton events event ih =>
    rw [List.foldl_append]
    exact ih.step event

end

end Session

end Chipcoin

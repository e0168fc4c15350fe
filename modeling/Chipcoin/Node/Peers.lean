import Chipcoin.Lib.Sorting
import Chipcoin.Lib.Table
import Chipcoin.Node.Session

/-!
# The peer book

What the node remembers of its peers: `PeerManager` keeps records in memory, `SQLitePeerRepository`
keeps rows, and `NodeService` writes both. The runtime scores misbehaviour on top of it. Records and
rows are tables keyed by the endpoint, for the network of the service.

* `PeerInfo.merge`, `PeerInfo.coalesce`: a field that an observation leaves open keeps its value.
* `PeerStore.recordPeerObservation`: a successful observation replaces the record instead.
* `PeerStore.observePeerMisbehavior`, `PeerStore.registerPeerFailure`,
  `PeerStore.recordSessionKnownHeight`, `PeerStore.onHandshakeComplete`: the events of the runtime.

The clock is read once for each event.
-/

namespace Chipcoin

open Sorting

/-! ### Records -/

/-- Where a peer is known from. -/
inductive PeerSource
  | discovered
  | seed
  | manual
deriving DecidableEq, Repr

/-- `_PEER_SOURCE_PRIORITY`. -/
def PeerSource.priority : PeerSource → ℕ
  | .discovered => 1
  | .seed => 2
  | .manual => 3

/-- `preferred_peer_source`. -/
def preferredPeerSource : Option PeerSource → Option PeerSource → Option PeerSource
  | none, incoming => incoming
  | existing, none => existing
  | some existing, some incoming =>
    if incoming.priority > existing.priority then some incoming else some existing

inductive PeerDirection
  | inbound
  | outbound
deriving DecidableEq, Repr

/-- The classes that `protocol_error_class` returns. -/
inductive ErrorClass
  | wrongNetworkMagic
  | checksumError
  | malformedMessage
  | handshakeFailed
  | timeout
  | invalidBlock
  | invalidTx
  | duplicateConnection
  | connectionClosed
  | connectionFailed
deriving DecidableEq, Repr

/-- The text of a class. -/
def ErrorClass.text : ErrorClass → String
  | .wrongNetworkMagic => "wrong_network_magic"
  | .checksumError => "checksum_error"
  | .malformedMessage => "malformed_message"
  | .handshakeFailed => "handshake_failed"
  | .timeout => "timeout"
  | .invalidBlock => "invalid_block"
  | .invalidTx => "invalid_tx"
  | .duplicateConnection => "duplicate_connection"
  | .connectionClosed => "connection_closed"
  | .connectionFailed => "connection_failed"

/-- `PeerInfo`, without the endpoint and the network, which are its key. -/
structure PeerInfo where
  source : Option PeerSource := none
  firstSeen : Option ℤ := none
  direction : Option PeerDirection := none
  lastSeen : Option ℤ := none
  lastSuccess : Option ℤ := none
  lastFailure : Option ℤ := none
  failureCount : Option ℕ := none
  successCount : Option ℕ := none
  handshakeComplete : Option Bool := none
  lastKnownHeight : Option ℤ := none
  nodeId : Option PyStr := none
  score : Option ℤ := none
  reconnectAttempts : Option ℕ := none
  backoffUntil : Option ℤ := none
  lastError : Option String := none
  lastErrorAt : Option ℤ := none
  protocolErrorClass : Option ErrorClass := none
  disconnectCount : Option ℕ := none
  sessionStartedAt : Option ℤ := none
  misbehaviorScore : Option ℤ := none
  misbehaviorLastUpdatedAt : Option ℤ := none
  banUntil : Option ℤ := none
  lastPenaltyReason : Option String := none
  lastPenaltyAt : Option ℤ := none
deriving DecidableEq, Repr

/-- `PeerManager.add` on a known endpoint. -/
def PeerInfo.merge (existing peer : PeerInfo) : PeerInfo where
  source := preferredPeerSource existing.source peer.source
  firstSeen := existing.firstSeen.or peer.firstSeen
  direction := peer.direction.or existing.direction
  lastSeen := peer.lastSeen.or existing.lastSeen
  lastSuccess := peer.lastSuccess.or existing.lastSuccess
  lastFailure := peer.lastFailure.or existing.lastFailure
  failureCount := peer.failureCount.or existing.failureCount
  successCount := peer.successCount.or existing.successCount
  handshakeComplete := peer.handshakeComplete.or existing.handshakeComplete
  lastKnownHeight := peer.lastKnownHeight.or existing.lastKnownHeight
  nodeId := peer.nodeId.or existing.nodeId
  score := peer.score.or existing.score
  reconnectAttempts := peer.reconnectAttempts.or existing.reconnectAttempts
  backoffUntil := peer.backoffUntil.or existing.backoffUntil
  lastError := peer.lastError.or existing.lastError
  lastErrorAt := peer.lastErrorAt.or existing.lastErrorAt
  protocolErrorClass := peer.protocolErrorClass.or existing.protocolErrorClass
  disconnectCount := peer.disconnectCount.or existing.disconnectCount
  sessionStartedAt := peer.sessionStartedAt.or existing.sessionStartedAt
  misbehaviorScore := peer.misbehaviorScore.or existing.misbehaviorScore
  misbehaviorLastUpdatedAt := peer.misbehaviorLastUpdatedAt.or existing.misbehaviorLastUpdatedAt
  banUntil := peer.banUntil.or existing.banUntil
  lastPenaltyReason := peer.lastPenaltyReason.or existing.lastPenaltyReason
  lastPenaltyAt := peer.lastPenaltyAt.or existing.lastPenaltyAt

/-- `SQLitePeerRepository.add` on a known endpoint. It takes the new source where there is one. -/
def PeerInfo.coalesce (existing peer : PeerInfo) : PeerInfo :=
  { existing.merge peer with source := peer.source.or existing.source }

/-- Host and port. -/
structure Endpoint where
  host : PyStr
  port : ℕ
deriving DecidableEq, Repr

namespace Endpoint

/-- Endpoints are listed by host, then by port. -/
instance : Ord Endpoint := ⟨compareLex (compareOn Endpoint.host) (compareOn Endpoint.port)⟩

instance : Std.TransOrd Endpoint :=
  inferInstanceAs (Std.TransCmp (compareLex (compareOn Endpoint.host) (compareOn Endpoint.port)))

instance : Std.LawfulEqOrd Endpoint where
  eq_of_compare {a b} h := by
    obtain ⟨hhost, hport⟩ := compareLex_eq_eq.mp h
    cases a
    cases b
    simp only [mk.injEq]
    exact ⟨Std.LawfulEqCmp.eq_of_compare hhost, Std.LawfulEqCmp.eq_of_compare hport⟩

end Endpoint

/-- The peers of a network by their endpoints. -/
abbrev PeerTable := Std.ExtTreeMap Endpoint PeerInfo

/-- The records in memory and, if the node has a repository, the rows. -/
structure PeerStore where
  peerbook : PeerTable := ∅
  repository : Option PeerTable := none

/-- Adds to a table, combining the new record with one that is there. -/
def PeerTable.upsert (combine : PeerInfo → PeerInfo → PeerInfo) (table : PeerTable)
    (endpoint : Endpoint) (peer : PeerInfo) : PeerTable :=
  table.insert endpoint (match table[endpoint]? with
    | none => peer
    | some existing => combine existing peer)

theorem PeerTable.getElem?_upsert (combine : PeerInfo → PeerInfo → PeerInfo) (table : PeerTable)
    (endpoint other : Endpoint) (peer : PeerInfo) :
    (upsert combine table endpoint peer)[other]? =
      if other = endpoint then some (match table[endpoint]? with
        | none => peer
        | some existing => combine existing peer)
      else table[other]? :=
  Table.getElem?_insert ..

/-! ### The service -/

namespace PeerStore

/-- `peerbook.add`, then `peer_repository.add`. -/
def add (store : PeerStore) (endpoint : Endpoint) (peer : PeerInfo) : PeerStore where
  peerbook := PeerTable.upsert PeerInfo.merge store.peerbook endpoint peer
  repository := store.repository.map (PeerTable.upsert PeerInfo.coalesce · endpoint peer)

/-- `add_peer`. -/
def addPeer (store : PeerStore) (now : ℤ) (endpoint : Endpoint)
    (source : PeerSource := .discovered) : PeerStore :=
  let existing := store.peerbook[endpoint]?
  store.add endpoint {
    source := preferredPeerSource (existing.bind PeerInfo.source) (some source)
    firstSeen := some ((existing.bind PeerInfo.firstSeen).getD now)
    lastSeen := some now }

/-- `remove_peer`. -/
def removePeer (store : PeerStore) (endpoint : Endpoint) : PeerStore where
  peerbook := store.peerbook.erase endpoint
  repository := store.repository.map (·.erase endpoint)

/-- `list_peers`: the rows are added to the records first. -/
def listPeers (store : PeerStore) : List (Endpoint × PeerInfo) × PeerStore :=
  let persisted := match store.repository with
    | none => []
    | some rows => rows.toList
  let peerbook := persisted.foldl
    (fun book row => PeerTable.upsert PeerInfo.merge book row.1 row.2) store.peerbook
  (peerbook.toList, { store with peerbook := peerbook })

/-- `peer_info`. -/
def peerInfo (store : PeerStore) (endpoint : Endpoint) : Option PeerInfo :=
  store.peerbook[endpoint]?

/-- A successful observation, in `record_peer_observation`. -/
def isSuccessful (observed : PeerInfo) : Bool :=
  observed.handshakeComplete = some true ∧ observed.lastSuccess.isSome ∧ observed.lastError = none

/-- `record_peer_observation`, the arguments as a record. -/
def recordPeerObservation (store : PeerStore) (now : ℤ) (endpoint : Endpoint)
    (observed : PeerInfo) : PeerStore :=
  let existing := store.peerbook[endpoint]?
  let successful := isSuccessful observed
  let observed := if successful then { observed with
      failureCount := some (observed.failureCount.getD 0)
      reconnectAttempts := some (observed.reconnectAttempts.getD 0)
      backoffUntil := some (observed.backoffUntil.getD 0)
      score := some (max 1 (observed.score.getD ((existing.bind PeerInfo.score).getD 0))) }
    else observed
  let peer := { observed with
    source := preferredPeerSource (existing.bind PeerInfo.source) observed.source
    firstSeen := some (observed.firstSeen.getD ((existing.bind PeerInfo.firstSeen).getD now))
    lastSeen := some now }
  let store := if successful ∧ existing.isSome then store.removePeer endpoint else store
  store.add endpoint peer

end PeerStore

/-! ### The runtime -/

/-- The settings of `NodeRuntime` for peers, with the bounds that its constructor enforces. -/
structure PeerPolicy where
  warningThreshold : ℤ
  disconnectThreshold : ℤ
  banThreshold : ℤ
  banDurationSeconds : ℤ
  decayIntervalSeconds : ℤ
  decayStep : ℤ
  peerbookMaxSize : ℕ
  retryBackoffBaseSeconds : ℚ
  retryBackoffMaxSeconds : ℚ
  warning_pos : 1 ≤ warningThreshold
  warning_le : warningThreshold ≤ disconnectThreshold
  disconnect_le : disconnectThreshold ≤ banThreshold
  duration_pos : 1 ≤ banDurationSeconds
  interval_pos : 1 ≤ decayIntervalSeconds
  step_pos : 1 ≤ decayStep

/-- The settings as the constructor of `NodeRuntime` makes them out of its arguments. -/
def PeerPolicy.configure (warningThreshold disconnectThreshold banThreshold banDurationSeconds
    decayIntervalSeconds decayStep : ℤ) (peerbookMaxSize : ℕ)
    (retryBackoffBaseSeconds retryBackoffMaxSeconds : ℚ) : PeerPolicy where
  warningThreshold := max 1 warningThreshold
  disconnectThreshold := max (max 1 warningThreshold) disconnectThreshold
  banThreshold := max (max (max 1 warningThreshold) disconnectThreshold) banThreshold
  banDurationSeconds := max 1 banDurationSeconds
  decayIntervalSeconds := max 1 decayIntervalSeconds
  decayStep := max 1 decayStep
  peerbookMaxSize := max 16 peerbookMaxSize
  retryBackoffBaseSeconds := max (1 / 2) retryBackoffBaseSeconds
  retryBackoffMaxSeconds := max 1 retryBackoffMaxSeconds
  warning_pos := le_max_left _ _
  warning_le := le_max_left _ _
  disconnect_le := le_max_left _ _
  duration_pos := le_max_left _ _
  interval_pos := le_max_left _ _
  step_pos := le_max_left _ _

/-- A text contains another. -/
def containsText (text part : String) : Bool := part.toList <:+: text.toList

/-- `protocol_error_class` on the text of an error. -/
def textErrorClass (text : String) : ErrorClass :=
  let has := containsText text.toLower
  if has "unexpected network magic" then .wrongNetworkMagic
  else if has "checksum" then .checksumError
  else if has "frame is shorter" ∨ has "payload length does not match" ∨ has "malformed" then
    .malformedMessage
  else if has "handshake timed out" ∨ has "timed out waiting for handshake completion" then
    .handshakeFailed
  else if has "timed out" ∨ has "ping" ∨ has "pong" then .timeout
  else if has "connect call failed" ∨ has "connection refused" ∨ has "[errno 111]" then
    .connectionFailed
  else if has "invalid block" then .invalidBlock
  else if has "invalid tx" then .invalidTx
  else if has "duplicate peer connection" then .duplicateConnection
  else if has "closed while reading frame" ∨ has "closed during send" ∨ has "connection closed" then
    .connectionClosed
  else if has "different network" ∨ has "duplicate version" ∨ has "verack" ∨ has "version" then
    .handshakeFailed
  else .malformedMessage

/-- `protocol_error_class` on an exception. -/
def protocolErrorClass (error : SessionError) : ErrorClass :=
  match error with
  | .p2p ⟨.wrongNetworkMagic, _⟩ => .wrongNetworkMagic
  | .p2p ⟨.checksum, _⟩ => .checksumError
  | .p2p ⟨.malformedMessage, _⟩ => .malformedMessage
  | .p2p ⟨.handshakeFailed, _⟩ => .handshakeFailed
  | .p2p ⟨.protocolTimeout, _⟩ | .p2p ⟨.blockRequestStalled, _⟩
  | .p2p ⟨.transportTimeout, _⟩ => .timeout
  | .p2p ⟨.invalidBlock, _⟩ => .invalidBlock
  | .p2p ⟨.invalidTx, _⟩ => .invalidTx
  | .p2p ⟨.duplicateConnection, _⟩ => .duplicateConnection
  | .p2p ⟨.connectionClosed, _⟩ => .connectionClosed
  | .p2p ⟨.connectionFailed, _⟩ => .connectionFailed
  | error => textErrorClass (Session.messageOf error)

/-- `_penalty_for_error`. -/
def penaltyForError (error : SessionError) : ℤ :=
  match protocolErrorClass error with
  | .wrongNetworkMagic | .checksumError | .malformedMessage | .invalidBlock => 100
  | .handshakeFailed => 25
  | .timeout => 10
  | .duplicateConnection => 1
  | .invalidTx => 10
  | .connectionClosed | .connectionFailed => 5

/-- `_should_penalize_as_misbehavior`. -/
def shouldPenalizeAsMisbehavior (error : SessionError) : Bool :=
  match error with
  | .p2p ⟨.blockRequestStalled, _⟩ => false
  | error =>
    match protocolErrorClass error with
    | .wrongNetworkMagic | .checksumError | .malformedMessage | .invalidBlock | .invalidTx => true
    | _ => false

/-- `_decayed_misbehavior_state`: the score after decay, and the time up to which decay has been
taken off. -/
def decayedMisbehaviorState (policy : PeerPolicy) (info : Option PeerInfo) (now : ℤ) : ℤ × ℤ :=
  let score := max 0 ((info.bind PeerInfo.misbehaviorScore).getD 0)
  let updatedAt := (info.bind PeerInfo.misbehaviorLastUpdatedAt).getD now
  if score ≤ 0 then (0, updatedAt)
  else
    let elapsed := max 0 (now - updatedAt)
    if elapsed < policy.decayIntervalSeconds then (score, updatedAt)
    else
      let decaySteps := elapsed / policy.decayIntervalSeconds
      (max 0 (score - decaySteps * policy.decayStep),
        updatedAt + decaySteps * policy.decayIntervalSeconds)

/-- The arguments of `_observe_peer_misbehavior`. -/
structure Penalty where
  event : String
  delta : ℤ
  direction : Option PeerDirection
  handshakeComplete : Option Bool
  lastKnownHeight : Option ℤ := none
  nodeId : Option PyStr := none
  reconnectAttempts : Option ℕ := none
  backoffUntil : Option ℤ := none
  disconnectCount : Option ℕ := none
  sessionStartedAt : Option ℤ := none
  lastError : Option String := none
  protocolErrorClassName : Option ErrorClass := none
  score : Option ℤ := none
  forceDisconnect : Bool := false

/-- What `_observe_peer_misbehavior` asks its caller to do. -/
inductive PenaltyAction
  | observe
  | warn
  | disconnect
  | ban
deriving DecidableEq, Repr

namespace PeerStore

/-- `_peerbook_trim_sort_key`, as a comparison. -/
def trimOrder (bannedHosts : List PyStr) : Endpoint × PeerInfo → Endpoint × PeerInfo → Ordering :=
  let sourceRank (peer : Endpoint × PeerInfo) : ℤ :=
    match peer.2.source with
    | some .discovered => 0
    | some .seed => 1
    | some .manual => 2
    | none => -1
  let bannedRank (peer : Endpoint × PeerInfo) : ℕ := if peer.1.host ∈ bannedHosts then 1 else 0
  compareLex (compareOn sourceRank) <| compareLex (compareOn bannedRank) <|
    compareLex (compareOn fun peer => peer.2.successCount.getD 0) <|
    compareLex (compareOn fun peer => peer.2.score.getD 0) <|
    compareLex (compareOn fun peer => peer.2.lastSeen.getD 0) <| compareOn Prod.fst

/-- `_trim_peerbook_to_capacity`. -/
def trimPeerbookToCapacity (policy : PeerPolicy) (store : PeerStore) (now : ℤ) : PeerStore :=
  let (peers, store) := store.listPeers
  if peers.length ≤ policy.peerbookMaxSize then store
  else
    let bannedHosts := (peers.filter fun peer => peer.2.banUntil.any (now < ·)).map (·.1.host)
    let removable := sortBy (trimOrder bannedHosts)
      (peers.filter fun peer => peer.2.source ≠ some .manual)
    (removable.take (peers.length - policy.peerbookMaxSize)).foldl
      (fun store peer => store.removePeer peer.1) store

/-- `_is_peer_currently_banned`. -/
def isPeerCurrentlyBanned (store : PeerStore) (now : ℤ) (endpoint : Endpoint) : Bool :=
  (store.peerInfo endpoint).any (fun peer => peer.banUntil.any (now < ·)) ||
    store.listPeers.1.any fun peer => peer.1.host = endpoint.host ∧ peer.2.banUntil.any (now < ·)

/-- `_observe_peer_misbehavior`. -/
def observePeerMisbehavior (policy : PeerPolicy) (store : PeerStore) (now : ℤ) (endpoint : Endpoint)
    (penalty : Penalty) : PenaltyAction × PeerStore :=
  let info := store.peerInfo endpoint
  let (currentScore, updatedAt) := decayedMisbehaviorState policy info now
  let nextScore := min 10000 (currentScore + max 0 penalty.delta)
  let banUntil := (info.bind PeerInfo.banUntil).filter (now < ·)
  let (action, banUntil) :=
    if policy.banThreshold ≤ nextScore then
      (PenaltyAction.ban, some (now + policy.banDurationSeconds))
    else if penalty.forceDisconnect ∨ policy.disconnectThreshold ≤ nextScore then
      (PenaltyAction.disconnect, banUntil)
    else if policy.warningThreshold ≤ nextScore then (PenaltyAction.warn, banUntil)
    else (PenaltyAction.observe, banUntil)
  let store := store.recordPeerObservation now endpoint {
    source := info.bind PeerInfo.source
    direction := penalty.direction
    handshakeComplete := penalty.handshakeComplete
    lastFailure := penalty.lastError.map fun _ => now
    failureCount := penalty.lastError.map fun _ =>
      ((info.bind PeerInfo.failureCount).map (· + 1)).getD 1
    lastKnownHeight := penalty.lastKnownHeight
    nodeId := penalty.nodeId
    score := penalty.score
    reconnectAttempts := penalty.reconnectAttempts
    backoffUntil := penalty.backoffUntil
    lastError := penalty.lastError
    lastErrorAt := penalty.lastError.map fun _ => now
    protocolErrorClass := penalty.protocolErrorClassName
    disconnectCount := penalty.disconnectCount
    sessionStartedAt := penalty.sessionStartedAt
    misbehaviorScore := some nextScore
    misbehaviorLastUpdatedAt := some (if nextScore ≠ currentScore then now else updatedAt)
    banUntil := banUntil
    lastPenaltyReason := some penalty.event
    lastPenaltyAt := some now }
  (action, store.trimPeerbookToCapacity policy now)

/-- `_updated_peer_score`. -/
def updatedPeerScore (store : PeerStore) (endpoint : Endpoint) (delta : ℤ) : ℤ :=
  max (-100) (min 100 (((store.peerInfo endpoint).bind PeerInfo.score).getD 0 + delta))

/-- `_needs_extended_peer_backoff`. -/
def needsExtendedPeerBackoff (info : Option PeerInfo) (attempts : ℕ) : Bool :=
  match info with
  | none => false
  | some info =>
    info.score.getD 0 ≤ -100 ∨ 20 ≤ attempts ∨ 20 ≤ info.disconnectCount.getD 0

/-- `_next_backoff_state`. -/
def nextBackoffState (policy : PeerPolicy) (info : Option PeerInfo) (now : ℤ) : ℕ × ℤ :=
  let attempts := ((info.bind PeerInfo.reconnectAttempts).map (· + 1)).getD 1
  let delaySeconds : ℚ :=
    if needsExtendedPeerBackoff info attempts then
      min 21600 (300 * 2 ^ min ((attempts - 20) / 10) 7)
    else
      min policy.retryBackoffMaxSeconds
        (policy.retryBackoffBaseSeconds * 2 ^ min (attempts - 1) 5)
  (attempts, now + max 1 ⌊delaySeconds⌋)

/-- `_register_peer_failure`. -/
def registerPeerFailure (policy : PeerPolicy) (store : PeerStore) (now : ℤ) (endpoint : Endpoint)
    (error : SessionError) (penalty : Option ℤ) : PeerStore :=
  let info := store.peerInfo endpoint
  let (attempts, backoffUntil) := nextBackoffState policy info now
  let classification := protocolErrorClass error
  let appliedPenalty := penalty.getD (penaltyForError error)
  let newScore := store.updatedPeerScore endpoint (-appliedPenalty)
  let backoffUntil := if backoffUntil > now then backoffUntil else now + 1
  let disconnectCount := ((info.bind PeerInfo.disconnectCount).map (· + 1)).getD 0
  if shouldPenalizeAsMisbehavior error then
    (store.observePeerMisbehavior policy now endpoint {
      event := classification.text
      delta := appliedPenalty
      direction := some .outbound
      handshakeComplete := some false
      reconnectAttempts := some attempts
      backoffUntil := some backoffUntil
      disconnectCount := some disconnectCount
      lastError := some (Session.messageOf error)
      protocolErrorClassName := some classification
      score := some newScore }).2
  else
    let store := store.recordPeerObservation now endpoint {
      source := info.bind PeerInfo.source
      direction := some .outbound
      handshakeComplete := some false
      lastFailure := some now
      failureCount := some (((info.bind PeerInfo.failureCount).map (· + 1)).getD 1)
      lastKnownHeight := info.bind PeerInfo.lastKnownHeight
      nodeId := info.bind PeerInfo.nodeId
      score := some newScore
      reconnectAttempts := some attempts
      backoffUntil := some backoffUntil
      lastError := some (Session.messageOf error)
      lastErrorAt := some now
      protocolErrorClass := some classification
      disconnectCount := some disconnectCount
      sessionStartedAt := info.bind PeerInfo.sessionStartedAt
      misbehaviorScore := info.bind PeerInfo.misbehaviorScore
      misbehaviorLastUpdatedAt := info.bind PeerInfo.misbehaviorLastUpdatedAt
      banUntil := info.bind PeerInfo.banUntil
      lastPenaltyReason := info.bind PeerInfo.lastPenaltyReason
      lastPenaltyAt := info.bind PeerInfo.lastPenaltyAt }
    store.trimPeerbookToCapacity policy now

/-- What `_record_session_known_height` and `_on_handshake_complete` read from a session. -/
structure SessionView where
  /-- Whether the session is outbound, if the runtime has a handle for it. -/
  outbound : Option Bool
  handshakeComplete : Bool
  /-- The node identifier of the remote version. -/
  remoteNodeId : Option PyStr

/-- `_record_session_known_height`, on a session with an endpoint. -/
def recordSessionKnownHeight (store : PeerStore) (now : ℤ) (endpoint : Endpoint)
    (session : SessionView) (height : Option ℤ) : PeerStore :=
  match height with
  | none => store
  | some height =>
    let info := store.peerInfo endpoint
    if height < 0 ∨ (info.bind PeerInfo.lastKnownHeight).any (height ≤ ·) then store
    else
      store.recordPeerObservation now endpoint {
        source := info.bind PeerInfo.source
        direction := session.outbound.map fun outbound => if outbound then .outbound else .inbound
        handshakeComplete := some session.handshakeComplete
        lastSuccess := if session.handshakeComplete then some now else none
        successCount := info.bind PeerInfo.successCount
        lastKnownHeight := some height
        nodeId := session.remoteNodeId.or (info.bind PeerInfo.nodeId)
        score := info.bind PeerInfo.score
        reconnectAttempts := info.bind PeerInfo.reconnectAttempts
        backoffUntil :=
          if session.handshakeComplete then some 0 else info.bind PeerInfo.backoffUntil
        disconnectCount := info.bind PeerInfo.disconnectCount
        sessionStartedAt := info.bind PeerInfo.sessionStartedAt
        misbehaviorScore := info.bind PeerInfo.misbehaviorScore
        misbehaviorLastUpdatedAt := info.bind PeerInfo.misbehaviorLastUpdatedAt
        banUntil := info.bind PeerInfo.banUntil
        lastPenaltyReason := info.bind PeerInfo.lastPenaltyReason
        lastPenaltyAt := info.bind PeerInfo.lastPenaltyAt }

/-- What `_on_handshake_complete` has found out about a session with an endpoint. -/
structure HandshakeView where
  /-- The source of the endpoint, where the session was dialled. -/
  dialled : Option PeerSource
  direction : Option PeerDirection
  source : PeerSource
  startHeight : ℤ
  nodeId : PyStr
  /-- Endpoints under which the node was known before. -/
  aliases : List Endpoint

/-- `_on_handshake_complete`, where it writes to the peer book. -/
def onHandshakeComplete (store : PeerStore) (now : ℤ) (endpoint : Endpoint)
    (view : HandshakeView) : PeerStore :=
  let store := match view.dialled with
    | none => store
    | some source => store.addPeer now endpoint source
  let existing := store.peerInfo endpoint
  let store := store.recordPeerObservation now endpoint {
    source := (existing.bind PeerInfo.source).or (some view.source)
    direction := view.direction
    handshakeComplete := some true
    lastSuccess := some now
    successCount := some (((existing.bind PeerInfo.successCount).map (· + 1)).getD 1)
    lastKnownHeight := some view.startHeight
    nodeId := some view.nodeId
    score := some (store.updatedPeerScore endpoint 1)
    reconnectAttempts := some 0
    backoffUntil := some 0
    sessionStartedAt := some now }
  -- `_canonicalize_peer_aliases` keeps the endpoint itself.
  (view.aliases.filter (· ≠ endpoint)).foldl removePeer store

end PeerStore

end Chipcoin

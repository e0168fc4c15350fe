import Chipcoin.Lib.Trace
import Chipcoin.Node.Session

/-!
# The handshake and application traffic

`handle_message` passes every message that is no version, verack, ping or pong to the callback, and
it does so at any time: neither it nor the runtime behind the callback asks whether the handshake is
complete. So a session hands an application message on after the handshake only if the peer waits
for it.

* `Shaken`: the four messages of the handshake are in a history.
* `applicationTraffic_shaken_iff`: every message is handed on after the handshake exactly if the
  peer sends every application message after its version and its verack, and in an outbound session
  after the local version. A complete handshake stays complete.
* `SampleHandshake.traffic_unshaken`: the first message of a session reaches the callback.
-/

namespace Chipcoin

open Trace

variable {history : List Happening} {message : MessageEnvelope}

/-! ### The handshake in a history -/

/-- A message that is not handled by the protocol itself. -/
def MessageEnvelope.isApplication : MessageEnvelope → Bool
  | .version _ | .verack | .ping _ | .pong _ => false
  | _ => true

namespace Session

/-- A version for the local network and a verack were received, the local version and verack were
sent. -/
def Shaken (config : SessionConfig) (history : List Happening) : Prop :=
  (∃ payload, .received (.version payload) ∈ history ∧
    payload.network = config.identity.network) ∧
  .sent (.version config.identity.versionMessage) ∈ history ∧
  .sent .verack ∈ history ∧ .received .verack ∈ history

/-- What the peer has to wait for: its own part of the handshake, and the local version where that
is sent unasked. -/
def Awaited (config : SessionConfig) (history : List Happening) : Prop :=
  (∃ payload, .received (.version payload) ∈ history ∧
    payload.network = config.identity.network) ∧
  .received .verack ∈ history ∧
  (¬ config.inbound → .sent (.version config.identity.versionMessage) ∈ history)

/-- Messages are handed on after the handshake. -/
def DeliversShaken (config : SessionConfig) : List Happening → Prop :=
  Before fun before entry => ∀ message, entry = .delivered message → Shaken config before

/-- The peer sends application messages after its part of the handshake. -/
def PeerWaits (config : SessionConfig) : List Happening → Prop :=
  Before fun before entry => ∀ message, entry = .received message →
    message.isApplication → Awaited config before

section

variable {config : SessionConfig} {session : Session}

/-- A reader that waits for a frame has done its part of the handshake. -/
theorem Tracks.shaken_iff (h : Tracks config session) (hreader : session.reader = .receiving) :
    Shaken config session.history ↔ Awaited config session.history := by
  constructor
  · rintro ⟨hreceived, hsent, -, hverack⟩
    exact ⟨hreceived, hverack, fun _ => hsent⟩
  · rintro ⟨hreceived, hverack, houtbound⟩
    obtain ⟨hanswer, hinbound⟩ :=
      h.answered (.inl hreader) (h.agrees.versionReceived.mpr hreceived)
    refine ⟨hreceived, ?_, h.agrees.verackSent.mp hanswer, hverack⟩
    by_cases hside : config.inbound
    · exact h.agrees.versionSent.mp (hinbound hside)
    · exact houtbound hside

/-- A received application message is no part of the handshake. -/
theorem shaken_append_received (happlication : message.isApplication) :
    Shaken config (history ++ [.received message]) ↔ Shaken config history := by
  have hversion : ∀ payload, MessageEnvelope.version payload ≠ message := by
    rintro payload rfl
    exact absurd happlication (by simp [MessageEnvelope.isApplication])
  have hverack : MessageEnvelope.verack ≠ message := by
    rintro rfl
    exact absurd happlication (by simp [MessageEnvelope.isApplication])
  unfold Shaken
  simp [hversion, hverack]

/-! ### The history of a step -/

@[simp] private theorem history_readerRaises (session : Session) (error : SessionError) :
    (session.readerRaises error).history = session.history := by
  unfold readerRaises
  split
  · split_ifs <;> rfl
  · rfl

@[simp] private theorem history_answerVersion (session : Session) :
    session.answerVersion.history = session.history := by
  unfold answerVersion
  split_ifs <;> rfl

@[simp] private theorem history_handleVersion (config : SessionConfig) (session : Session)
    (payload : VersionMessage) : (session.handleVersion config payload).history =
      session.history := by
  unfold handleVersion
  dsimp only
  split_ifs <;> simp

/-- An entry that is neither handed on nor an application message. -/
def Happening.isInternal : Happening → Bool
  | .received message => ¬ message.isApplication
  | .sent _ => true
  | .delivered _ => false

/-- **What a step adds to the history**: nothing, an internal entry, or an application message that
is handed on if there is a callback. -/
inductive Grows (config : SessionConfig) (session : Session) : List Happening → Prop
  | same : Grows config session session.history
  | internal {entry : Happening} (hinternal : Happening.isInternal entry) :
      Grows config session (session.history ++ [entry])
  | application {message : MessageEnvelope} (happlication : message.isApplication)
      (hreader : session.reader = .receiving) :
      Grows config session (session.history ++ [.received message] ++
        (if config.listens then [.delivered message] else []))

private theorem grows_handleMessage (hreader : session.reader = .receiving)
    (message : MessageEnvelope) :
    Grows config session (handleMessage config
      { session with history := session.history ++ [.received message] } message).history := by
  unfold handleMessage
  split
  · rw [history_handleVersion]
    exact .internal rfl
  · exact .internal rfl
  · exact .internal rfl
  · exact .internal rfl
  · next hversion hverack hping hpong =>
    have happlication : message.isApplication := by
      unfold MessageEnvelope.isApplication
      split <;> simp_all
    have hgrows : Grows config session _ := .application happlication hreader
    by_cases hlistens : config.listens
    · rw [if_pos hlistens] at hgrows ⊢
      exact hgrows
    · rw [if_neg hlistens, List.append_nil] at hgrows
      rw [if_neg hlistens]
      exact hgrows

private theorem grows_resume (config : SessionConfig) (session : Session) :
    Grows config session (session.resume config).history := by
  unfold resume
  split
  · rw [history_answerVersion]
    exact .internal rfl
  · exact .internal rfl
  · exact .internal rfl
  · exact .same
  · exact .same

private theorem grows_step (config : SessionConfig) (session : Session) (event : SessionEvent) :
    Grows config session (session.step config event).history := by
  cases event with
  | receive result =>
    dsimp only [step]
    split_ifs with hreader
    · exact .same
    · split
      · -- Only a message that is received can be handed on, and in the same step.
        exact grows_handleMessage (not_not.mp hreader) _
      · rw [history_readerRaises]
        exact .same
  | complete result =>
    dsimp only [step]
    split_ifs
    · split
      · exact grows_resume config session
      · rw [history_readerRaises]
        exact .same
    · exact .same
  | started result =>
    dsimp only [step]
    split_ifs
    · split
      · exact .internal rfl
      · exact .same
    · exact .same
  | close own reason error =>
    dsimp only [step]
    split_ifs
    · exact .same
    · exact .same
    · split <;> exact .same

/-! ### Runs -/

private theorem deliversShaken_received :
    DeliversShaken config (history ++ [.received message]) ↔ DeliversShaken config history := by
  unfold DeliversShaken
  rw [before_concat]
  refine and_iff_left ?_
  rintro _ ⟨⟩

private theorem deliversShaken_delivered :
    DeliversShaken config (history ++ [.delivered message]) ↔
      DeliversShaken config history ∧ Shaken config history := by
  unfold DeliversShaken
  rw [before_concat]
  refine and_congr_right' ⟨fun h => h message rfl, ?_⟩
  rintro h _ ⟨⟩
  exact h

private theorem peerWaits_delivered :
    PeerWaits config (history ++ [.delivered message]) ↔ PeerWaits config history := by
  unfold PeerWaits
  rw [before_concat]
  refine and_iff_left ?_
  rintro _ ⟨⟩

private theorem peerWaits_received (happlication : message.isApplication) :
    PeerWaits config (history ++ [.received message]) ↔
      PeerWaits config history ∧ Awaited config history := by
  unfold PeerWaits
  rw [before_concat]
  refine and_congr_right' ⟨fun h => h message rfl happlication, ?_⟩
  rintro h _ ⟨⟩ _
  exact h

/-- **One step.** A message that is handed on is one that was received in the same step, when the
reader had done its part of the handshake. -/
theorem Tracks.deliversShaken_iff_of_grows (h : Tracks config session)
    (hgrows : Grows config session history) (hsofar : DeliversShaken config session.history ↔
      (config.listens → PeerWaits config session.history)) :
    DeliversShaken config history ↔ (config.listens → PeerWaits config history) := by
  cases hgrows with
  | same => exact hsofar
  -- Neither side speaks of entries that are no application message.
  | @internal entry hinternal =>
    have hdelivers : DeliversShaken config (session.history ++ [entry]) ↔
        DeliversShaken config session.history := by
      refine before_concat.trans (and_iff_left ?_)
      rintro message rfl
      exact absurd hinternal (by simp [Happening.isInternal])
    have hwaits : PeerWaits config (session.history ++ [entry]) ↔
        PeerWaits config session.history := by
      refine before_concat.trans (and_iff_left ?_)
      rintro message rfl happlication
      simp [Happening.isInternal, happlication] at hinternal
    rw [hdelivers, hwaits]
    exact hsofar
  | @application message happlication hreader =>
    -- It is received, and handed on if there is a callback.
    by_cases hlistens : config.listens
    · rw [if_pos hlistens, deliversShaken_delivered, deliversShaken_received, peerWaits_delivered,
        peerWaits_received happlication, shaken_append_received happlication, h.shaken_iff hreader,
        hsofar]
      exact ⟨fun h _ => ⟨h.1 hlistens, h.2⟩, fun h => ⟨fun _ => (h hlistens).1, (h hlistens).2⟩⟩
    · rw [if_neg hlistens, List.append_nil, deliversShaken_received, hsofar]
      exact iff_of_true (fun h => absurd h hlistens) (fun h => absurd h hlistens)

private theorem deliversShaken_iff_run (config : SessionConfig) (events : List SessionEvent) :
    DeliversShaken config (run config events).history ↔
      (config.listens → PeerWaits config (run config events).history) := by
  induction events using List.reverseRecOn with
  | nil => exact iff_of_true (before_nil _) fun _ => before_nil _
  | append_singleton events event ih =>
    have hgrows := grows_step config (run config events) event
    rw [run, List.foldl_append]
    exact (tracks_run config events).deliversShaken_iff_of_grows hgrows ih

/-! ### A complete handshake -/

private theorem Agrees.complete_update {state : SessionState} (h : Agrees config state history)
    (hcomplete : state.handshakeComplete) : (updateHandshakeState state).handshakeComplete := by
  obtain ⟨hsent, hreceived, hverack, hpeer⟩ := h.complete hcomplete
  simp only [updateHandshakeState, Bool.and_eq_true]
  exact ⟨⟨⟨hsent, hreceived⟩, hverack⟩, hpeer⟩

private theorem complete_readerRaises (session : Session) (error : SessionError)
    (hcomplete : session.state.handshakeComplete) :
    (session.readerRaises error).state.handshakeComplete := by
  unfold readerRaises
  split
  · split_ifs
    · exact hcomplete
    · exact (SameFlags.closeState ..).handshakeComplete.trans hcomplete
  · exact hcomplete

private theorem Agrees.complete_answerVersion (h : Agrees config session.state session.history)
    (hcomplete : session.state.handshakeComplete) :
    session.answerVersion.state.handshakeComplete := by
  unfold answerVersion
  split_ifs
  · exact h.complete_update hcomplete
  · exact hcomplete

private theorem Tracks.complete_handleMessage (h : Tracks config session)
    (hcomplete : session.state.handshakeComplete) (message : MessageEnvelope) :
    (Session.handleMessage config
      { session with history := session.history ++ [.received message] }
      message).state.handshakeComplete := by
  unfold Session.handleMessage
  split
  · unfold Session.handleVersion
    split_ifs with hreceived
    · exact complete_readerRaises _ _ hcomplete
    all_goals exact absurd (h.agrees.complete hcomplete).2.1 hreceived
  · exact h.agrees.receiveVerack.complete_update hcomplete
  · exact hcomplete
  · exact hcomplete
  · split_ifs <;> exact hcomplete

private theorem Tracks.complete_step (h : Tracks config session)
    (hcomplete : session.state.handshakeComplete) (event : SessionEvent) :
    (session.step config event).state.handshakeComplete := by
  cases event with
  | receive result =>
    dsimp only [Session.step]
    split_ifs
    · exact hcomplete
    · split
      · exact h.complete_handleMessage hcomplete _
      · exact complete_readerRaises _ _ hcomplete
  -- An awaited call returns; only the two of the handshake touch the flags.
  | complete result =>
    dsimp only [Session.step]
    split_ifs
    · split
      · unfold Session.resume
        split
        · exact h.agrees.sendVersion.complete_answerVersion hcomplete
        · exact h.agrees.sendVerack.complete_update hcomplete
        all_goals exact hcomplete
      · exact complete_readerRaises _ _ hcomplete
    · exact hcomplete
  | started result =>
    dsimp only [Session.step]
    split_ifs
    · split <;> exact hcomplete
    · exact hcomplete
  -- Closing leaves the flags.
  | close own reason error =>
    have hclosed :=
      (SameFlags.closeState session.state reason error).handshakeComplete.trans hcomplete
    dsimp only [Session.step]
    split_ifs
    · exact hclosed
    · exact hcomplete
    · split <;> exact hclosed

private theorem complete_run_append (config : SessionConfig) (events more : List SessionEvent)
    (hcomplete : (run config events).state.handshakeComplete) :
    (run config (events ++ more)).state.handshakeComplete := by
  induction more using List.reverseRecOn with
  | nil =>
    rw [List.append_nil]
    exact hcomplete
  | append_singleton more event ih =>
    have hstep := (tracks_run config (events ++ more)).complete_step ih event
    rw [run, ← List.append_assoc, List.foldl_append]
    exact hstep

/-- **Application traffic and the handshake.** In every session, whatever the peer sends and however
the tasks interleave: a message is handed to the callback only after the handshake, exactly if there
is no callback or the peer sends application messages only after its version and its verack, and in
an outbound session after the local version has been sent. A complete handshake stays complete. -/
theorem applicationTraffic_shaken_iff (config : SessionConfig) (events : List SessionEvent) :
    (DeliversShaken config (run config events).history ↔
      (config.listens → PeerWaits config (run config events).history)) ∧
    ∀ more, (run config events).state.handshakeComplete →
      (run config (events ++ more)).state.handshakeComplete :=
  ⟨deliversShaken_iff_run config events, complete_run_append config events⟩

end

end Session

/-! ### Samples -/

namespace SampleHandshake

open Session

def identity : LocalPeerIdentity where
  nodeId := str "node"
  network := str "mainnet"
  startHeight := 0
  userAgent := str "chipcoin"
  networkMagic := []

/-- An inbound session with a callback. -/
def inbound : SessionConfig where
  identity := identity
  inbound := true
  listens := true

/-- The peer sends its version and its verack, then asks for addresses. -/
def courteous : List SessionEvent :=
  [.receive (.ok (.version identity.versionMessage)), .complete (.ok ()), .complete (.ok ()),
    .receive (.ok .verack), .receive (.ok .getaddr)]

theorem applicationTraffic_courteous :
    .delivered .getaddr ∈ (run inbound courteous).history ∧
    DeliversShaken inbound (run inbound courteous).history ∧
    ∀ more, (run inbound (courteous ++ more)).state.handshakeComplete := by
  obtain ⟨hdelivers, hstays⟩ := applicationTraffic_shaken_iff inbound courteous
  have hhistory : (run inbound courteous).history =
      [.received (.version identity.versionMessage), .sent (.version identity.versionMessage),
        .sent .verack, .received .verack] ++ [.received .getaddr] ++ [.delivered .getaddr] := rfl
  refine ⟨by simp [hhistory], hdelivers.mpr fun _ => ?_, fun more => hstays more rfl⟩
  rw [hhistory, peerWaits_delivered, peerWaits_received rfl]
  constructor
  · -- Nothing but the handshake comes before the request.
    rintro before entry after heq message rfl happlication
    have hmem : Happening.received message ∈ before ++ .received message :: after := by simp
    rw [← heq] at hmem
    simp only [List.mem_cons, Happening.received.injEq, reduceCtorEq, false_or, List.not_mem_nil,
      or_false] at hmem
    rcases hmem with rfl | rfl <;> exact absurd happlication (by decide)
  · exact ⟨⟨identity.versionMessage, by simp, rfl⟩, by simp, fun h => absurd rfl h⟩

/-- A peer asks for addresses in its first message: the callback answers, with no version and no
verack in the history of the session. -/
theorem traffic_unshaken :
    (run inbound [.receive (.ok .getaddr)]).history = [.received .getaddr, .delivered .getaddr] ∧
    ¬ DeliversShaken inbound (run inbound [.receive (.ok .getaddr)]).history := by
  refine ⟨rfl, ?_⟩
  intro h
  obtain ⟨-, hsent, -⟩ := h [.received .getaddr] (.delivered .getaddr) [] rfl .getaddr rfl
  exact absurd hsent (by simp)

end SampleHandshake

end Chipcoin

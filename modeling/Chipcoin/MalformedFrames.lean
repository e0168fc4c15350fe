import Chipcoin.Node.Session

/-!
# Malformed frames

The reader of a session closes it on every `P2PError` and records the cause. Other exceptions end
the reader task alone: the session stays open, and nobody reads its frames any more. The codec
raises such exceptions for a command that is not ASCII, for texts that are not UTF-8, and wherever
the decoders of the consensus encoding meet the end of the payload.

* `Attends`: the reader has not died, and it has returned only from a closed session.
* `malformedFrames_close`: frames outside of `FrameFault` close the session, with a cause, or are
  read; a frame in it makes the session deaf.
* `SampleFrames.session_deaf`: after a complete handshake, a command with one octet that is not
  ASCII does so.
-/

namespace Chipcoin

namespace Session

/-! ### Attention -/

/-- The reader serves its session. -/
structure Attends (session : Session) : Prop where
  /-- It has not ended with an exception. -/
  awake : ∀ error, session.reader ≠ .raised error
  /-- It reads from an open session. -/
  listening : session.reader = .receiving → ¬ session.state.closed
  /-- It has returned from a closed session. -/
  ended : session.reader = .returned → session.state.closed

/-- The session is open and its reader is dead. -/
def Deaf (session : Session) : Prop :=
  (∃ error, session.reader = .raised error) ∧ ¬ session.state.closed

/-- The session was closed, and the error is recorded as the cause. -/
def ClosedBy (error : P2pError) (session next : Session) : Prop :=
  next.reader = .returned ∧ next.state.closed ∧
    next.state.errorCauses = session.state.errorCauses ++ [.p2p error] ∧
    next.state.errors = session.state.errors ++ [error.message]

private theorem closed_closeState (state : SessionState) (reason : Option String)
    (error : Option SessionError) : (closeState state reason error).closed := by
  unfold closeState
  split_ifs with hclosed
  · exact hclosed
  · rfl

private theorem attends_continueReading (session : Session) : Attends session.continueReading := by
  unfold continueReading
  refine ⟨?_, ?_, ?_⟩
  · intro error
    split_ifs <;> simp
  · intro hreader hclosed
    rw [if_pos hclosed] at hreader
    cases hreader
  · intro hreader
    by_contra hopen
    rw [if_neg hopen] at hreader
    cases hreader

private theorem attends_readerRaises (session : Session) {error : SessionError}
    (h : ¬ error.Foreign) :
    Attends (session.readerRaises error) := by
  cases error with
  | other error => exact absurd trivial h
  | p2p cause =>
    unfold readerRaises
    dsimp only
    split_ifs
    · exact attends_continueReading _
    · exact ⟨by simp, by simp, fun _ => closed_closeState ..⟩

private theorem attends_answerVersion (session : Session) : Attends session.answerVersion := by
  unfold answerVersion
  split_ifs
  · exact attends_continueReading _
  · exact ⟨by simp, by simp, by simp⟩

private theorem attends_handleMessage (config : SessionConfig) (session : Session)
    (message : MessageEnvelope) : Attends (session.handleMessage config message) := by
  unfold handleMessage
  split
  · unfold handleVersion
    dsimp only
    split_ifs
    · exact attends_readerRaises _ id
    · exact attends_readerRaises _ id
    · exact ⟨by simp, by simp, by simp⟩
    · exact attends_answerVersion _
  · exact attends_continueReading _
  · exact ⟨by simp, by simp, by simp⟩
  · exact attends_continueReading _
  · split_ifs
    · exact ⟨by simp, by simp, by simp⟩
    · exact attends_continueReading _

private theorem Attends.resume {session : Session} (h : Attends session) (config : SessionConfig) :
    Attends (session.resume config) := by
  unfold Session.resume
  split
  · exact attends_answerVersion _
  · exact attends_continueReading _
  · exact attends_continueReading _
  · exact attends_continueReading _
  · exact h

section

variable [Platform]

/-- A frame arrives and is decoded. -/
def receiveFrame (config : SessionConfig) (frame : Bytes) : SessionEvent :=
  .receive (decodeMessage frame config.identity.networkMagic)

/-- An event that raises nothing but errors of the peer protocol: the transport does not do so, the
callback does not, and the frame is not at fault. -/
def Tolerable (config : SessionConfig) : SessionEvent → Prop
  | .receive result => (∃ error, result = .error (.p2p error)) ∨
      ∃ frame, result = decodeMessage frame config.identity.networkMagic ∧
        ¬ FrameFault config.identity.networkMagic frame
  | .complete result => ∀ error, result = .error error → ¬ error.Foreign
  | .started _ | .close .. => True

variable {config : SessionConfig} {session : Session}

private theorem Tolerable.not_foreign {result : Except SessionError MessageEnvelope}
    {error : SessionError}
    (h : Tolerable config (.receive result)) (herror : result = .error error) :
    ¬ error.Foreign := by
  rcases h with ⟨cause, hcause⟩ | ⟨frame, hframe, hfault⟩
  · rw [hcause] at herror
    cases herror
    exact id
  · intro hforeign
    refine hfault ((decodeMessage_bad_iff excludes_foreign frame _).mp ⟨error, ?_, hforeign⟩)
    rw [← hframe, herror]

/-- **A step keeps the reader alive.** -/
theorem Attends.step (h : Attends session) {event : SessionEvent}
    (hevent : Tolerable config event) :
    Attends (session.step config event) := by
  cases event with
  | receive result =>
    dsimp only [Session.step]
    split_ifs
    · exact h
    · split
      · exact attends_handleMessage _ _ _
      · -- A `P2PError` closes the session; nothing else is raised outside of the faults.
        exact attends_readerRaises _ (hevent.not_foreign rfl)
  | complete result =>
    dsimp only [Session.step]
    split_ifs
    · split
      · exact h.resume config
      · exact attends_readerRaises _ (hevent _ rfl)
    · exact h
  | started result =>
    dsimp only [Session.step]
    split_ifs
    · split
      · exact ⟨h.awake, h.listening, h.ended⟩
      · exact ⟨h.awake, h.listening, h.ended⟩
    · exact h
  | close own reason error =>
    have hclosed := closed_closeState session.state reason error
    dsimp only [Session.step]
    split_ifs with hown hcalling
    · -- The callback closes the session that it was called from.
      exact ⟨h.awake, by simp [hcalling], fun _ => hclosed⟩
    · exact h
    · split
      · next error hraised => exact absurd hraised (h.awake error)
      · exact ⟨by simp, by simp, fun _ => hclosed⟩

/-- **A run keeps the reader alive.** -/
theorem attends_run (config : SessionConfig) {events : List SessionEvent}
    (hevents : ∀ event ∈ events, Tolerable config event) : Attends (run config events) := by
  induction events using List.reverseRecOn with
  | nil => exact ⟨by simp [run, start], by simp [run, start], by simp [run, start]⟩
  | append_singleton events event ih =>
    rw [run, List.foldl_append]
    refine Attends.step (ih fun other hother => ?_) ?_
    · exact hevents other (List.mem_append_left _ hother)
    · exact hevents event (List.mem_append_right _ (List.mem_singleton_self _))

/-! ### The next frame -/

private theorem run_receiveFrame (config : SessionConfig) (events : List SessionEvent)
    (frame : Bytes) :
    run config (events ++ [receiveFrame config frame]) =
      (run config events).step config (receiveFrame config frame) := by
  rw [run, List.foldl_append]
  rfl

/-- A `CodecError` closes the session. It is no timeout, which an established session survives. -/
theorem step_receiveFrame_closedBy (h : Attends session) (hreader : session.reader = .receiving)
    {frame : Bytes} {error : P2pError}
    (hdecode : decodeMessage frame config.identity.networkMagic = .error (.p2p error))
    (hkind : error.kind.isCodec) :
    ClosedBy error session (session.step config (receiveFrame config frame)) := by
  have hopen := h.listening hreader
  have htimeout : error.kind ≠ .transportTimeout := by
    intro heq
    rw [heq] at hkind
    cases hkind
  have hstep : session.step config (receiveFrame config frame) =
      session.readerRaises (.p2p error) := by
    dsimp only [receiveFrame, Session.step]
    rw [if_neg (not_not_intro hreader), hdecode]
  rw [hstep]
  unfold readerRaises closeState
  dsimp only
  rw [if_neg fun hsurvives => htimeout hsurvives.1, if_neg hopen]
  exact ⟨rfl, rfl, rfl, rfl⟩

/-- **Malformed frames.** The codec answers a frame with a message or with a `P2PError` exactly if
the frame is not at fault. In every run of a session with such frames the reader lives, and it has
returned only from a closed session. A frame that cannot be decoded closes the session and is
recorded as the cause; the session goes deaf exactly if the frame is at fault. -/
theorem malformedFrames_close (config : SessionConfig) :
    (∀ frame, (∃ message, decodeMessage frame config.identity.networkMagic = .ok message) ∨
        (∃ error, decodeMessage frame config.identity.networkMagic = .error (.p2p error)) ↔
      ¬ FrameFault config.identity.networkMagic frame) ∧
    ∀ events, (∀ event ∈ events, Tolerable config event) →
      Attends (run config events) ∧
      ∀ frame, (run config events).reader = .receiving →
        (∀ error, decodeMessage frame config.identity.networkMagic = .error (.p2p error) →
          ClosedBy error (run config events)
            (run config (events ++ [receiveFrame config frame]))) ∧
        (Deaf (run config (events ++ [receiveFrame config frame])) ↔
          FrameFault config.identity.networkMagic frame) := by
  refine ⟨fun frame => ?_, fun events hevents => ?_⟩
  · rcases decodeMessage_cases frame config.identity.networkMagic with
      ⟨message, hdecode, hfault⟩ | ⟨error, hdecode, -, hfault⟩ | ⟨error, hdecode, hfault⟩
    · exact iff_of_true (.inl ⟨message, hdecode⟩) hfault
    · exact iff_of_true (.inr ⟨error, hdecode⟩) hfault
    · rw [hdecode]
      exact iff_of_false (by simp) (not_not_intro hfault)
  · have hattends := attends_run config hevents
    refine ⟨hattends, fun frame hreader => ⟨fun error herror => ?_, ?_⟩⟩
    · rw [run_receiveFrame]
      refine step_receiveFrame_closedBy hattends hreader herror ?_
      rcases decodeMessage_cases frame config.identity.networkMagic with
        ⟨message, hdecode, -⟩ | ⟨other, hdecode, hkind, -⟩ | ⟨other, hdecode, -⟩
      · rw [hdecode] at herror
        cases herror
      · rw [hdecode] at herror
        cases herror
        exact hkind
      · rw [hdecode] at herror
        cases herror
    · rw [run_receiveFrame]
      -- A fault leaves the codec as another error, which ends the reader and closes nothing.
      by_cases hfault : FrameFault config.identity.networkMagic frame
      · refine iff_of_true ?_ hfault
        obtain ⟨error, hdecode, hforeign⟩ :=
          (decodeMessage_bad_iff excludes_foreign frame _).mpr hfault
        have hstep : (run config events).step config (receiveFrame config frame) =
            (run config events).readerRaises error := by
          dsimp only [receiveFrame, Session.step]
          rw [if_neg (not_not_intro hreader), hdecode]
        rw [hstep]
        cases error with
        | p2p _ => exact hforeign.elim
        | other error => exact ⟨⟨_, rfl⟩, hattends.listening hreader⟩
      · refine iff_of_false ?_ hfault
        have hnext : Attends ((run config events).step config (receiveFrame config frame)) :=
          hattends.step (.inr ⟨frame, rfl, hfault⟩)
        rintro ⟨⟨error, hraised⟩, -⟩
        exact hnext.awake error hraised

end

end Session

/-! ### Samples -/

namespace SampleFrames

open Session

local instance platform : Platform := samplePlatform []

/-- An inbound session on the main network. -/
def inbound : SessionConfig where
  identity := {
    nodeId := str "node"
    network := str "mainnet"
    startHeight := 0
    userAgent := str "chipcoin"
    networkMagic := [0xF9, 0xBE, 0xB4, 0xD9] }
  inbound := true
  listens := true

/-- A frame of the main network whose command is one octet that is not ASCII. -/
def strangeCommand : Bytes := [0xF9, 0xBE, 0xB4, 0xD9, 0xFF] ++ List.replicate 19 0

/-- A frame that is too short. -/
def shortFrame : Bytes := [0xF9, 0xBE, 0xB4, 0xD9]

theorem malformedFrames_short :
    ¬ FrameFault inbound.identity.networkMagic shortFrame ∧
    ∃ error, ClosedBy error (run inbound []) (run inbound [receiveFrame inbound shortFrame]) := by
  obtain ⟨-, hruns⟩ := malformedFrames_close inbound
  refine ⟨fun h => absurd h.1 (by decide), ?_⟩
  obtain ⟨-, hframes⟩ := hruns [] (by simp)
  obtain ⟨hclosed, -⟩ := hframes shortFrame rfl
  exact ⟨_, hclosed ⟨.malformedMessage, "Frame is shorter than the fixed header size."⟩ rfl⟩

/-- The peer sends its version and, when it has been answered, its verack. -/
def handshake : List SessionEvent :=
  [.receive (.ok (.version inbound.identity.versionMessage)), .complete (.ok ()),
    .complete (.ok ()), .receive (.ok .verack)]

/-- The frame with the strange command raises a `UnicodeDecodeError`. After a complete handshake,
when no timeout is left to close it, the session stays open with a dead reader. -/
theorem session_deaf :
    decodeMessage strangeCommand inbound.identity.networkMagic = .error notAscii ∧
    (run inbound handshake).state.handshakeComplete ∧
    Deaf (run inbound (handshake ++ [receiveFrame inbound strangeCommand])) := by
  have hdecode : decodeMessage strangeCommand inbound.identity.networkMagic = .error notAscii := by
    decide +kernel
  have hrun : run inbound (handshake ++ [receiveFrame inbound strangeCommand]) =
      (run inbound handshake).readerRaises notAscii := by
    rw [run_receiveFrame, receiveFrame, hdecode]
    rfl
  rw [hrun]
  exact ⟨hdecode, by decide, ⟨notAscii, rfl⟩, by decide⟩

end SampleFrames

end Chipcoin

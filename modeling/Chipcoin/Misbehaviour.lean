import Chipcoin.Lib.Trace
import Chipcoin.Node.Peers

/-!
# Misbehaviour across reconnects

A peer collects a misbehaviour score, which decays with time, and is banned when the score reaches a
threshold. The score and the ban stand in the record of its endpoint, and every event on the
endpoint rewrites the record. Most events leave the fields open, so that they are kept. A completed
handshake removes the record first, and with it the score and the ban.

* `Sanctions`: the part of a record that the accounting reads, with one transition for each event.
* `Holds.step`: the store does what the sanctions do, in memory and in the repository, as long as
  the book is not trimmed.
* `Tally`: the score as it is meant, a fold of the penalties alone.
* `misbehaviour_kept`: if every handshake finds no score and no ban to lose, the stored score is the
  tally, bans are not cleared or shortened, and a tally at the threshold bans.
* `SampleMisbehaviour.score_forgotten`: two penalties of 60 with a handshake in between.
-/

namespace Chipcoin

open List Trace

variable {now until_ : ℤ} {observed : PeerInfo}

/-! ### Sanctions -/

/-- What a record says about misbehaviour. -/
structure Sanctions where
  score : Option ℤ := none
  updatedAt : Option ℤ := none
  banUntil : Option ℤ := none
deriving DecidableEq

namespace Sanctions

/-- The fields that are given, over those that were there. -/
def overlay (old new : Sanctions) : Sanctions where
  score := new.score.or old.score
  updatedAt := new.updatedAt.or old.updatedAt
  banUntil := new.banUntil.or old.banUntil

/-- The sanctions of a record, if there is one. -/
def ofInfo (info : Option PeerInfo) : Sanctions where
  score := info.bind PeerInfo.misbehaviorScore
  updatedAt := info.bind PeerInfo.misbehaviorLastUpdatedAt
  banUntil := info.bind PeerInfo.banUntil

@[simp] private theorem overlay_empty (sanctions : Sanctions) :
    sanctions.overlay {} = sanctions := rfl

@[simp] private theorem empty_overlay (sanctions : Sanctions) :
    overlay {} sanctions = sanctions := by
  simp [overlay]

@[simp] private theorem overlay_self (sanctions : Sanctions) :
    sanctions.overlay sanctions = sanctions := by
  simp [overlay]

/-- Combining records combines their sanctions. -/
structure Overlays (combine : PeerInfo → PeerInfo → PeerInfo) : Prop where
  ofInfo : ∀ existing peer,
    Sanctions.ofInfo (some (combine existing peer)) =
      (Sanctions.ofInfo (some existing)).overlay (Sanctions.ofInfo (some peer))

private theorem overlays_merge : Overlays PeerInfo.merge := ⟨fun _ _ => rfl⟩

private theorem overlays_coalesce : Overlays PeerInfo.coalesce := ⟨fun _ _ => rfl⟩

end Sanctions

/-! ### Tables -/

namespace PeerTable

open Sanctions

private theorem ofInfo_upsert {combine : PeerInfo → PeerInfo → PeerInfo} (h : Overlays combine)
    (table : PeerTable) (endpoint : Endpoint) (peer : PeerInfo) :
    ofInfo (upsert combine table endpoint peer)[endpoint]? =
      (ofInfo table[endpoint]?).overlay (ofInfo (some peer)) := by
  rw [getElem?_upsert, if_pos rfl]
  cases table[endpoint]? with
  | none => exact (empty_overlay _).symm
  | some existing => exact h.ofInfo existing peer

/-- Adding leaves the other endpoints as they are and makes the endpoint known. -/
theorem known_of_upsert {combine : PeerInfo → PeerInfo → PeerInfo} {table : PeerTable}
    {endpoint other : Endpoint} {peer : PeerInfo}
    (h : (upsert combine table endpoint peer)[other]? ≠ none) :
    other = endpoint ∨ table[other]? ≠ none := by
  rw [getElem?_upsert] at h
  split_ifs at h with heq
  · exact .inl heq
  · exact .inr h

/-- A table has at most as many entries as a set that contains its keys. -/
theorem length_toList_le {table : PeerTable} {known : Finset Endpoint}
    (h : ∀ endpoint, table[endpoint]? ≠ none → endpoint ∈ known) :
    table.toList.length ≤ known.card := by
  rw [← length_map Prod.fst, ← toFinset_card_of_nodup (Table.nodup_keys table)]
  refine Finset.card_le_card fun endpoint hmem => h endpoint ?_
  obtain ⟨⟨_, info⟩, hinfo, rfl⟩ := List.mem_map.mp (List.mem_toFinset.mp hmem)
  rw [Std.ExtTreeMap.mem_toList_iff_getElem?_eq_some.mp hinfo]
  exact Option.some_ne_none info

end PeerTable

/-! ### The store -/

/-- The store has these sanctions for an endpoint, in memory and in the repository, and knows no
endpoints but those of a set. -/
structure Holds (known : Finset Endpoint) (endpoint : Endpoint) (sanctions : Sanctions)
    (db : PeerStore) : Prop where
  book : Sanctions.ofInfo db.peerbook[endpoint]? = sanctions
  rows : ∀ rows, db.repository = some rows → Sanctions.ofInfo rows[endpoint]? = sanctions
  /-- What is not in memory is not in the repository. -/
  absent : ∀ rows, db.repository = some rows → db.peerbook[endpoint]? = none →
    rows[endpoint]? = none
  known_book : ∀ other, db.peerbook[other]? ≠ none → other ∈ known
  known_rows : ∀ rows, db.repository = some rows → ∀ other, rows[other]? ≠ none → other ∈ known

namespace Holds

open Sanctions PeerStore

variable {known : Finset Endpoint} {endpoint : Endpoint} {sanctions : Sanctions}
  {db : PeerStore} {policy : PeerPolicy}

private theorem add (h : Holds known endpoint sanctions db) (hknown : endpoint ∈ known)
    {peer : PeerInfo} {given : Sanctions} (hgiven : ofInfo (some peer) = given) :
    Holds known endpoint (sanctions.overlay given) (db.add endpoint peer) where
  book := by
    rw [← h.book, ← hgiven]
    exact PeerTable.ofInfo_upsert overlays_merge ..
  rows := by
    intro rows hrows
    obtain ⟨old, hold, rfl⟩ := Option.map_eq_some_iff.mp hrows
    rw [← h.rows old hold, ← hgiven]
    exact PeerTable.ofInfo_upsert overlays_coalesce ..
  absent := by
    intro rows hrows hnone
    rw [PeerStore.add, PeerTable.getElem?_upsert, if_pos rfl] at hnone
    exact absurd hnone (Option.some_ne_none _)
  known_book := by
    intro other hother
    rcases PeerTable.known_of_upsert hother with rfl | hother
    · exact hknown
    · exact h.known_book other hother
  known_rows := by
    intro rows hrows other hother
    obtain ⟨old, hold, rfl⟩ := Option.map_eq_some_iff.mp hrows
    rcases PeerTable.known_of_upsert hother with rfl | hother
    · exact hknown
    · exact h.known_rows old hold other hother

private theorem removePeer (h : Holds known endpoint sanctions db) (removed : Endpoint) :
    Holds known endpoint (if removed = endpoint then {} else sanctions)
      (db.removePeer removed) where
  -- A removal is the only event that forgets, and only for the endpoint itself.
  book := by
    rw [PeerStore.removePeer, Table.getElem?_erase]
    by_cases heq : removed = endpoint
    · rw [if_pos heq, if_pos heq.symm]
      rfl
    · rw [if_neg heq, if_neg (Ne.symm heq)]
      exact h.book
  rows := by
    intro rows hrows
    obtain ⟨old, hold, rfl⟩ := Option.map_eq_some_iff.mp hrows
    rw [Table.getElem?_erase]
    by_cases heq : removed = endpoint
    · rw [if_pos heq, if_pos heq.symm]
      rfl
    · rw [if_neg heq, if_neg (Ne.symm heq)]
      exact h.rows old hold
  absent := by
    intro rows hrows hnone
    obtain ⟨old, hold, rfl⟩ := Option.map_eq_some_iff.mp hrows
    rw [PeerStore.removePeer, Table.getElem?_erase] at hnone
    rw [Table.getElem?_erase]
    split_ifs at hnone ⊢
    · rfl
    · exact h.absent old hold hnone
  known_book := by
    intro other hother
    rw [PeerStore.removePeer, Table.getElem?_erase] at hother
    split_ifs at hother
    · exact absurd rfl hother
    · exact h.known_book other hother
  known_rows := by
    intro rows hrows other hother
    obtain ⟨old, hold, rfl⟩ := Option.map_eq_some_iff.mp hrows
    rw [Table.getElem?_erase] at hother
    split_ifs at hother
    · exact absurd rfl hother
    · exact h.known_rows old hold other hother

/-- The rows that `list_peers` adds to the records say nothing new about the endpoint. -/
theorem foldl_upsert {repository : Option PeerTable} {list : List (Endpoint × PeerInfo)}
    (hsame : ∀ row ∈ list, row.1 = endpoint → ofInfo (some row.2) = sanctions)
    (hknown : ∀ row ∈ list, row.1 ∈ known) {book : PeerTable}
    (h : Holds known endpoint sanctions ⟨book, repository⟩) :
    Holds known endpoint sanctions ⟨list.foldl (fun book row =>
      PeerTable.upsert PeerInfo.merge book row.1 row.2) book, repository⟩ := by
  induction list generalizing book with
  | nil => exact h
  | cons row rest ih =>
    refine ih (forall_mem_of_forall_mem_cons hsame)
      (forall_mem_of_forall_mem_cons hknown) ?_
    refine ⟨?_, h.rows, ?_, ?_, h.known_rows⟩
    · by_cases heq : row.1 = endpoint
      · -- The row of the endpoint itself: its sanctions are those of the record.
        rw [← heq, PeerTable.ofInfo_upsert overlays_merge, hsame row mem_cons_self heq, heq]
        exact (congrArg (overlay · sanctions) h.book).trans (overlay_self sanctions)
      · rw [PeerTable.getElem?_upsert, if_neg (Ne.symm heq)]
        exact h.book
    · intro rows hrows hnone
      rw [PeerTable.getElem?_upsert] at hnone
      split_ifs at hnone
      exact h.absent rows hrows hnone
    · intro other hother
      rcases PeerTable.known_of_upsert hother with rfl | hother
      · exact hknown row mem_cons_self
      · exact h.known_book other hother

section

variable (h : Holds known endpoint sanctions db)
include h

private theorem listPeers : Holds known endpoint sanctions db.listPeers.2 := by
  obtain ⟨book, repository⟩ := db
  cases repository with
  | none => exact h
  | some rows =>
    refine foldl_upsert ?_ ?_ h
    · rintro ⟨_, info⟩ hrow rfl
      rw [← h.rows rows rfl, Std.ExtTreeMap.mem_toList_iff_getElem?_eq_some.mp hrow]
    · rintro ⟨other, info⟩ hrow
      refine h.known_rows rows rfl other ?_
      rw [Std.ExtTreeMap.mem_toList_iff_getElem?_eq_some.mp hrow]
      exact Option.some_ne_none info

/-- A book within its capacity is not trimmed. -/
theorem trim (hcapacity : known.card ≤ policy.peerbookMaxSize) (now : ℤ) :
    Holds known endpoint sanctions (db.trimPeerbookToCapacity policy now) := by
  have hlisted := h.listPeers
  have hlength : db.listPeers.1.length ≤ policy.peerbookMaxSize :=
    (PeerTable.length_toList_le hlisted.known_book).trans hcapacity
  unfold trimPeerbookToCapacity
  dsimp only
  rw [if_pos hlength]
  exact hlisted

/-- **What an observation does to the sanctions.** -/
theorem recordPeerObservation (hknown : endpoint ∈ known) (now : ℤ) (observed : PeerInfo) :
    Holds known endpoint
      (if isSuccessful observed then ofInfo (some observed)
        else sanctions.overlay (ofInfo (some observed)))
      (db.recordPeerObservation now endpoint observed) := by
  unfold PeerStore.recordPeerObservation
  cases hsuccessful : isSuccessful observed with
  | false =>
    simp only [Bool.false_eq_true, false_and, if_false]
    exact h.add hknown rfl
  | true =>
    simp only [true_and, if_true]
    rw [← empty_overlay (ofInfo (some observed))]
    cases hexisting : db.peerbook[endpoint]? with
    | none =>
      -- There is nothing to replace.
      have hempty : sanctions = {} := by
        rw [← h.book, hexisting]
        rfl
      rw [hempty] at h
      simp only [Option.isSome_none, Bool.false_eq_true, if_false]
      exact h.add hknown rfl
    | some existing =>
      -- The record goes, in memory and in the repository, before the new one is added.
      have hremoved := h.removePeer endpoint
      rw [if_pos rfl] at hremoved
      simp only [Option.isSome_some, if_true]
      exact hremoved.add hknown rfl

private theorem of_eq {other : Sanctions} (heq : sanctions = other) :
    Holds known endpoint other db := heq ▸ h

private theorem unsuccessful (hknown : endpoint ∈ known) (now : ℤ)
    (hfailed : isSuccessful observed = false) :
    Holds known endpoint (sanctions.overlay (ofInfo (some observed)))
      (db.recordPeerObservation now endpoint observed) := by
  have hrecord := h.recordPeerObservation hknown now observed
  rw [hfailed] at hrecord
  exact hrecord

private theorem successful (hknown : endpoint ∈ known) (now : ℤ)
    (hsuccessful : isSuccessful observed = true) :
    Holds known endpoint (ofInfo (some observed))
      (db.recordPeerObservation now endpoint observed) := by
  have hrecord := h.recordPeerObservation hknown now observed
  rw [hsuccessful] at hrecord
  exact hrecord

end

end Holds

/-! ### Events -/

/-- A ban that is passed on only while it lasts, over itself. -/
theorem filter_or_self {α : Type} (value : Option α) (p : α → Bool) :
    (value.filter p).or value = value := by
  cases value with
  | none => rfl
  | some a =>
    rw [Option.filter_some]
    split_ifs <;> rfl

namespace Sanctions

/-- The score after decay and the time up to which decay has been taken off. -/
def decayed (policy : PeerPolicy) (sanctions : Sanctions) (now : ℤ) : ℤ × ℤ :=
  decayedMisbehaviorState policy (some {
    misbehaviorScore := sanctions.score
    misbehaviorLastUpdatedAt := sanctions.updatedAt }) now

/-- The score after a penalty. -/
def nextScore (policy : PeerPolicy) (sanctions : Sanctions) (now delta : ℤ) : ℤ :=
  min 10000 ((sanctions.decayed policy now).1 + max 0 delta)

/-- What `_observe_peer_misbehavior` makes of the sanctions. -/
def penalize (policy : PeerPolicy) (sanctions : Sanctions) (now delta : ℤ) : Sanctions where
  score := some (sanctions.nextScore policy now delta)
  updatedAt := some (if sanctions.nextScore policy now delta ≠ (sanctions.decayed policy now).1
    then now else (sanctions.decayed policy now).2)
  banUntil := if policy.banThreshold ≤ sanctions.nextScore policy now delta
    then some (now + policy.banDurationSeconds) else sanctions.banUntil

private theorem decayedMisbehaviorState_eq (policy : PeerPolicy) (info : Option PeerInfo)
    (now : ℤ) :
    decayedMisbehaviorState policy info now = (ofInfo info).decayed policy now := by
  cases info <;> rfl

end Sanctions

/-- What happens to an endpoint. -/
inductive PeerEvent
  | penalty (penalty : Penalty)
  | handshake (view : PeerStore.HandshakeView)
  | failure (error : SessionError) (penalty : Option ℤ)
  | height (session : PeerStore.SessionView) (height : Option ℤ)

/-- The delta of a penalty. An outbound failure counts as one where its error is misbehaviour. -/
def PeerEvent.delta? : PeerEvent → Option ℤ
  | .penalty details => some details.delta
  | .failure error given =>
    if shouldPenalizeAsMisbehavior error then some (given.getD (penaltyForError error)) else none
  | .handshake _ | .height .. => none

/-- One event on an endpoint, at a time. -/
def PeerStore.step (policy : PeerPolicy) (endpoint : Endpoint) (db : PeerStore)
    (event : ℤ × PeerEvent) : PeerStore :=
  match event.2 with
  | .penalty penalty => (db.observePeerMisbehavior policy event.1 endpoint penalty).2
  | .handshake view => db.onHandshakeComplete event.1 endpoint view
  | .failure error penalty => db.registerPeerFailure policy event.1 endpoint error penalty
  | .height session height => db.recordSessionKnownHeight event.1 endpoint session height

/-- One event, on the sanctions. -/
def Sanctions.step (policy : PeerPolicy) (sanctions : Sanctions) (event : ℤ × PeerEvent) :
    Sanctions :=
  match event.2 with
  | .handshake _ => {}
  | other =>
    match other.delta? with
    | none => sanctions
    | some delta => sanctions.penalize policy event.1 delta

namespace Holds

open Sanctions PeerStore

variable {known : Finset Endpoint} {endpoint : Endpoint} {sanctions : Sanctions}
  {db : PeerStore} {policy : PeerPolicy} (h : Holds known endpoint sanctions db)
  (hknown : endpoint ∈ known)
include h hknown

private theorem observePeerMisbehavior (hcapacity : known.card ≤ policy.peerbookMaxSize) (now : ℤ)
    (penalty : Penalty) :
    Holds known endpoint (sanctions.penalize policy now penalty.delta)
      (db.observePeerMisbehavior policy now endpoint penalty).2 := by
  have hban : (db.peerInfo endpoint).bind PeerInfo.banUntil = sanctions.banUntil :=
    congrArg Sanctions.banUntil h.book
  unfold PeerStore.observePeerMisbehavior
  dsimp only
  rw [decayedMisbehaviorState_eq, show ofInfo (db.peerInfo endpoint) = sanctions from h.book, hban]
  refine Holds.trim ?_ hcapacity now
  refine (h.unsuccessful hknown now ?_).of_eq ?_
  · simp [isSuccessful]
  · -- The score and its time are given; the ban is a new one or the one that was there.
    unfold overlay penalize nextScore ofInfo
    split_ifs with hbanned
    · rfl
    all_goals
      simp only [Option.bind_some, Option.some_or, filter_or_self]

/-- An observation that repeats the sanctions of the record, or leaves them open. -/
theorem repeated (now : ℤ) (hsame : ofInfo (some observed) = ofInfo (db.peerInfo endpoint)) :
    Holds known endpoint sanctions (db.recordPeerObservation now endpoint observed) := by
  have hbook : ofInfo (some observed) = sanctions := hsame.trans h.book
  refine (h.recordPeerObservation hknown now observed).of_eq ?_
  rw [hbook, overlay_self, ite_self]

private theorem registerPeerFailure (hcapacity : known.card ≤ policy.peerbookMaxSize) (now : ℤ)
    (error : SessionError) (given : Option ℤ) :
    Holds known endpoint (sanctions.step policy (now, .failure error given))
      (db.registerPeerFailure policy now endpoint error given) := by
  unfold PeerStore.registerPeerFailure Sanctions.step PeerEvent.delta?
  dsimp only
  cases hpenalized : shouldPenalizeAsMisbehavior error with
  | true =>
    rw [if_pos rfl, if_pos rfl]
    exact (h.observePeerMisbehavior hknown hcapacity now _).of_eq rfl
  | false =>
    rw [if_neg Bool.false_ne_true, if_neg Bool.false_ne_true]
    exact Holds.trim (h.repeated hknown now rfl) hcapacity now

private theorem recordSessionKnownHeight (now : ℤ) (session : SessionView) (height : Option ℤ) :
    Holds known endpoint sanctions
      (db.recordSessionKnownHeight now endpoint session height) := by
  unfold PeerStore.recordSessionKnownHeight
  cases height with
  | none => exact h
  | some height =>
    dsimp only
    split
    · exact h
    -- On an established session this is a successful observation, but it names the sanctions.
    · exact h.repeated hknown now rfl

private theorem addPeer (now : ℤ) (source : PeerSource) :
    Holds known endpoint sanctions (db.addPeer now endpoint source) :=
  (h.add hknown rfl).of_eq (overlay_empty sanctions)

private theorem dialled (now : ℤ) (source : Option PeerSource) :
    Holds known endpoint sanctions (match source with
      | none => db
      | some source => db.addPeer now endpoint source) := by
  cases source with
  | none => exact h
  | some source => exact h.addPeer hknown now source

/-- **A completed handshake forgets the sanctions.** -/
theorem onHandshakeComplete (now : ℤ) (view : HandshakeView) :
    Holds known endpoint {} (db.onHandshakeComplete now endpoint view) := by
  have haliases : ∀ (aliases : List Endpoint) (db : PeerStore),
      Holds known endpoint {} db →
        Holds known endpoint {} (aliases.foldl PeerStore.removePeer db) := by
    intro aliases
    induction aliases with
    | nil => exact fun db hstore => hstore
    | cons other rest ih =>
      intro db hstore
      exact ih _ ((hstore.removePeer other).of_eq (ite_self _))
  have hdialled := h.dialled hknown now view.dialled
  exact haliases _ _ ((hdialled.successful hknown now (by simp [isSuccessful])).of_eq rfl)

/-- **One event.** The store does to the sanctions what `Sanctions.step` says. -/
theorem step (hcapacity : known.card ≤ policy.peerbookMaxSize) (event : ℤ × PeerEvent) :
    Holds known endpoint (sanctions.step policy event) (db.step policy endpoint event) := by
  obtain ⟨now, event⟩ := event
  cases event with
  | penalty details => exact h.observePeerMisbehavior hknown hcapacity now details
  | handshake view => exact h.onHandshakeComplete hknown now view
  | failure error given => exact h.registerPeerFailure hknown hcapacity now error given
  | height session height => exact h.recordSessionKnownHeight hknown now session height

end Holds

/-- A run of events on one endpoint. -/
def PeerStore.run (policy : PeerPolicy) (endpoint : Endpoint) (db : PeerStore)
    (events : List (ℤ × PeerEvent)) : PeerStore :=
  events.foldl (PeerStore.step policy endpoint) db

/-- The sanctions after a run of events. -/
def Sanctions.run (policy : PeerPolicy) (events : List (ℤ × PeerEvent)) : Sanctions :=
  events.foldl (Sanctions.step policy) {}

/-- **A run of events.** -/
theorem Holds.run {known : Finset Endpoint} {endpoint : Endpoint} {db : PeerStore}
    {policy : PeerPolicy} (h : Holds known endpoint {} db) (hknown : endpoint ∈ known)
    (hcapacity : known.card ≤ policy.peerbookMaxSize) (events : List (ℤ × PeerEvent)) :
    Holds known endpoint (Sanctions.run policy events) (db.run policy endpoint events) := by
  induction events using List.reverseRecOn with
  | nil => exact h
  | append_singleton events event ih =>
    rw [Sanctions.run, PeerStore.run, foldl_append, foldl_append]
    exact ih.step hknown hcapacity event

/-! ### The tally -/

/-- The score as a fold of penalties, with the time up to which decay has been taken off. -/
structure Tally where
  score : ℤ := 0
  since : ℤ := 0

/-- A penalty: one step off for each full interval, not below zero, then the delta on top. -/
def Tally.add (policy : PeerPolicy) (tally : Tally) (penalty : ℤ × ℤ) : Tally :=
  let intervals := max 0 (penalty.1 - tally.since) / policy.decayIntervalSeconds
  { score := max 0 (tally.score - intervals * policy.decayStep) + penalty.2
    since := if penalty.2 = 0 then tally.since + intervals * policy.decayIntervalSeconds
      else penalty.1 }

/-- The penalties among the events, with their times. -/
def penalties (events : List (ℤ × PeerEvent)) : List (ℤ × ℤ) :=
  events.filterMap fun event => event.2.delta?.map (event.1, ·)

/-- The tally of the penalties alone. -/
def tally (policy : PeerPolicy) (events : List (ℤ × PeerEvent)) : Tally :=
  (penalties events).foldl (Tally.add policy) {}

private theorem tally_concat (policy : PeerPolicy) (events : List (ℤ × PeerEvent))
    (event : ℤ × PeerEvent) :
    tally policy (events ++ [event]) = match event.2.delta? with
      | none => tally policy events
      | some delta => (tally policy events).add policy (event.1, delta) := by
  unfold tally penalties
  rw [filterMap_append, foldl_append]
  cases hdelta : event.2.delta? with
  | none => simp [hdelta]
  | some delta => simp [hdelta]

/-- The intervals that have passed since decay was taken off last. -/
def Tally.intervals (policy : PeerPolicy) (tally : Tally) (now : ℤ) : ℤ :=
  max 0 (now - tally.since) / policy.decayIntervalSeconds

private theorem Tally.decay_nonneg (policy : PeerPolicy) (tally : Tally) (now : ℤ) :
    0 ≤ tally.intervals policy now * policy.decayStep :=
  mul_nonneg (Int.ediv_nonneg (le_max_left _ _) (by linarith [policy.interval_pos]))
    (by linarith [policy.step_pos])

/-- **The sanctions are the tally**, as far as they matter: the time of a score that is zero does
not. -/
structure Accounts (policy : PeerPolicy) (sanctions : Sanctions) (tally : Tally) : Prop where
  score : sanctions.score.getD 0 = tally.score
  since : 0 < tally.score → sanctions.updatedAt = some tally.since
  nonneg : 0 ≤ tally.score

namespace Accounts

variable {policy : PeerPolicy} {sanctions : Sanctions} {tally : Tally}

private theorem decayed (h : Accounts policy sanctions tally) (now : ℤ) :
    (sanctions.decayed policy now).1 =
        max 0 (tally.score - tally.intervals policy now * policy.decayStep) ∧
      (0 < tally.score → (sanctions.decayed policy now).2 =
        tally.since + tally.intervals policy now * policy.decayIntervalSeconds) := by
  unfold Sanctions.decayed decayedMisbehaviorState
  simp only [Option.bind_some]
  rw [h.score, max_eq_right h.nonneg]
  rcases h.nonneg.eq_or_lt with hzero | hpos
  · -- Nothing decays from zero.
    rw [if_pos hzero.symm.le]
    refine ⟨?_, fun hpos => absurd hzero hpos.ne⟩
    rw [← hzero, max_eq_left]
    linarith [tally.decay_nonneg policy now]
  · rw [if_neg hpos.not_ge, h.since hpos, Option.getD_some]
    split_ifs with hshort
    · -- Less than an interval has passed.
      have hnone : tally.intervals policy now = 0 :=
        Int.ediv_eq_zero_of_lt (le_max_left _ _) hshort
      rw [hnone, zero_mul, zero_mul, sub_zero, add_zero, max_eq_right hpos.le]
      exact ⟨rfl, fun _ => rfl⟩
    · exact ⟨rfl, fun _ => rfl⟩

section

variable {delta : ℤ} (h : Accounts policy sanctions tally) (hdelta : 0 ≤ delta)
  (hcap : (tally.add policy (now, delta)).score ≤ 10000)
include h hdelta hcap

/-- A penalty, where the cap on the score does not cut in. -/
theorem nextScore :
    sanctions.nextScore policy now delta = (tally.add policy (now, delta)).score := by
  have hscore : (tally.add policy (now, delta)).score =
      max 0 (tally.score - tally.intervals policy now * policy.decayStep) + delta := rfl
  unfold Sanctions.nextScore
  rw [(h.decayed now).1, max_eq_right hdelta, ← hscore, min_eq_right hcap]

private theorem penalize :
    Accounts policy (sanctions.penalize policy now delta) (tally.add policy (now, delta)) := by
  have hnext := h.nextScore hdelta hcap
  obtain ⟨hcurrent, htime⟩ := h.decayed now
  have hscore : (tally.add policy (now, delta)).score =
      (sanctions.decayed policy now).1 + delta := by
    rw [hcurrent]
    rfl
  refine ⟨hnext, fun hpos => ?_, ?_⟩
  · show some _ = some _
    rw [hnext, hscore]
    rcases hdelta.eq_or_lt with hzero | hdelta
    · -- A penalty of nothing: the time moves on by full intervals only.
      have hscorePos : 0 < tally.score := by
        rw [hscore, ← hzero, add_zero, hcurrent] at hpos
        by_contra hle
        rw [max_eq_left (by linarith [tally.decay_nonneg policy now])] at hpos
        exact lt_irrefl 0 hpos
      rw [← hzero, add_zero, if_neg (not_not_intro rfl), htime hscorePos]
      rfl
    · rw [if_pos (by linarith)]
      exact congrArg some (if_neg hdelta.ne').symm
  · rw [hscore, hcurrent]
    have := le_max_left 0 (tally.score - tally.intervals policy now * policy.decayStep)
    linarith

end

end Accounts

/-! ### Runs -/

/-- The record of an endpoint has no score and no ban that lasts. -/
def Clear (now : ℤ) (info : Option PeerInfo) : Prop :=
  (info.bind PeerInfo.misbehaviorScore).getD 0 ≤ 0 ∧
    ∀ until_, info.bind PeerInfo.banUntil = some until_ → until_ ≤ now

/-- What an event has to meet: a delta is not negative, the tally stays below the cap on scores, and
a handshake finds nothing that it could lose. -/
def Fair (policy : PeerPolicy) (endpoint : Endpoint) (db : PeerStore)
    (done : List (ℤ × PeerEvent)) (event : ℤ × PeerEvent) : Prop :=
  (∀ delta, event.2.delta? = some delta → 0 ≤ delta) ∧
  (tally policy (done ++ [event])).score ≤ 10000 ∧
  ∀ view, event.2 = .handshake view →
    Clear event.1 ((db.run policy endpoint done).peerInfo endpoint)

private theorem Sanctions.run_concat (policy : PeerPolicy) (events : List (ℤ × PeerEvent))
    (event : ℤ × PeerEvent) :
    Sanctions.run policy (events ++ [event]) = (Sanctions.run policy events).step policy event := by
  rw [Sanctions.run, foldl_append]
  rfl

section

variable {known : Finset Endpoint} {endpoint : Endpoint} {db : PeerStore} {policy : PeerPolicy}
  {events : List (ℤ × PeerEvent)}

section

variable (h : Holds known endpoint {} db) (hknown : endpoint ∈ known)
  (hcapacity : known.card ≤ policy.peerbookMaxSize)
include h hknown hcapacity

/-- What the store says of the endpoint after a run. -/
theorem Holds.ofInfo_run (events : List (ℤ × PeerEvent)) :
    Sanctions.ofInfo ((db.run policy endpoint events).peerInfo endpoint) =
      Sanctions.run policy events :=
  (h.run hknown hcapacity events).book

/-- **The account of a fair run.** -/
theorem Holds.accounts_run (hfair : Before (Fair policy endpoint db) events) :
    Accounts policy (Sanctions.run policy events) (tally policy events) := by
  induction events using List.reverseRecOn with
  | nil => exact ⟨rfl, fun hpos => absurd hpos (lt_irrefl 0), le_rfl⟩
  | append_singleton events event ih =>
    obtain ⟨hbefore, hdelta, hcap, hclear⟩ := before_concat.mp hfair
    have haccounts := ih hbefore
    rw [Sanctions.run_concat, tally_concat]
    rw [tally_concat] at hcap
    obtain ⟨now, event⟩ := event
    cases event with
    | handshake view =>
      -- What is forgotten here was nothing.
      obtain ⟨hscore, -⟩ := hclear view rfl
      have hzero : (tally policy events).score = 0 := by
        refine le_antisymm ?_ haccounts.nonneg
        rw [← haccounts.score, ← h.ofInfo_run hknown hcapacity events]
        exact hscore
      exact (⟨hzero.symm, fun hpos => absurd hpos hzero.not_gt, hzero.ge⟩ :
        Accounts policy {} (tally policy events))
    | height session height => exact haccounts
    | penalty details => exact haccounts.penalize (hdelta _ rfl) hcap
    | failure error given =>
      unfold Sanctions.step
      dsimp only at hcap hdelta ⊢
      cases hcounts : (PeerEvent.failure error given).delta? with
      | none => exact haccounts
      | some delta =>
        rw [hcounts] at hcap
        exact haccounts.penalize (hdelta delta hcounts) hcap

end

/-- What a step makes of the ban. -/
theorem Sanctions.banUntil_step (policy : PeerPolicy) (sanctions : Sanctions) (now : ℤ)
    (event : PeerEvent) :
    (sanctions.step policy (now, event)).banUntil = some (now + policy.banDurationSeconds) ∨
      (sanctions.step policy (now, event)).banUntil = sanctions.banUntil ∨
        ∃ view, event = .handshake view := by
  unfold Sanctions.step
  split
  · next view heq => exact .inr (.inr ⟨view, heq⟩)
  · split
    · exact .inr (.inl rfl)
    · unfold Sanctions.penalize
      dsimp only
      split_ifs
      · exact .inl rfl
      · exact .inr (.inl rfl)

/-- A ban does not last longer than one duration after an event. -/
theorem Sanctions.banUntil_run_le (policy : PeerPolicy) (events : List (ℤ × PeerEvent))
    (h : (Sanctions.run policy events).banUntil = some until_) :
    ∃ event ∈ events, until_ ≤ event.1 + policy.banDurationSeconds := by
  induction events using List.reverseRecOn with
  | nil => cases h
  | append_singleton events event ih =>
    obtain ⟨now, event⟩ := event
    rw [Sanctions.run_concat] at h
    rcases Sanctions.banUntil_step policy (Sanctions.run policy events) now event with
      hnew | hsame | ⟨view, rfl⟩
    · rw [hnew] at h
      exact ⟨(now, event), by simp, (Option.some.inj h).ge⟩
    · obtain ⟨earlier, hmem, hle⟩ := ih (hsame ▸ h)
      exact ⟨earlier, mem_append_left _ hmem, hle⟩
    · cases h

/-- **Bans last.** A fair event at a time that is not before the others neither clears nor shortens
a ban. -/
theorem Holds.ban_step (h : Holds known endpoint {} db) (hknown : endpoint ∈ known)
    (hcapacity : known.card ≤ policy.peerbookMaxSize) {done : List (ℤ × PeerEvent)}
    {event : PeerEvent} (htimes : ∀ earlier ∈ done, earlier.1 ≤ now)
    (hfair : Fair policy endpoint db done (now, event))
    (hban : (Sanctions.run policy done).banUntil = some until_) (hlasts : now < until_) :
    ∃ later, (Sanctions.run policy (done ++ [(now, event)])).banUntil = some later ∧
      until_ ≤ later := by
  rw [Sanctions.run_concat]
  rcases Sanctions.banUntil_step policy (Sanctions.run policy done) now event with
    hnew | hsame | ⟨view, rfl⟩
  · obtain ⟨earlier, hmem, hle⟩ := Sanctions.banUntil_run_le policy done hban
    refine ⟨_, hnew, hle.trans ?_⟩
    linarith [htimes earlier hmem]
  · exact ⟨until_, hsame.trans hban, le_rfl⟩
  · obtain ⟨-, hexpired⟩ := hfair.2.2 view rfl
    refine absurd hlasts (not_lt.mpr (hexpired until_ ?_))
    rw [← hban, ← h.ofInfo_run hknown hcapacity done]
    rfl

/-- Penalties within one interval of each other do not decay. -/
theorem foldl_add_undecayed (policy : PeerPolicy) {list : List (ℤ × ℤ)}
    (hnonneg : ∀ penalty ∈ list, 0 ≤ penalty.2)
    (hclose : ∀ a ∈ list, ∀ b ∈ list, b.1 - a.1 < policy.decayIntervalSeconds) :
    (list.foldl (Tally.add policy) {}).score = (list.map Prod.snd).sum ∧
      0 ≤ (list.foldl (Tally.add policy) {}).score ∧
      ((list.foldl (Tally.add policy) {}).score = 0 ∨
        ∃ penalty ∈ list, (list.foldl (Tally.add policy) {}).since = penalty.1) := by
  induction list using List.reverseRecOn with
  | nil => exact ⟨rfl, le_rfl, .inl rfl⟩
  | append_singleton list penalty ih =>
    have hpenalty : penalty ∈ list ++ [penalty] := by simp
    obtain ⟨hsum, hpos, hsince⟩ := ih
      (fun other hother => hnonneg other (mem_append_left _ hother))
      (fun a ha b hb => hclose a (mem_append_left _ ha) b (mem_append_left _ hb))
    rw [foldl_append, foldl_cons, foldl_nil, map_append, sum_append]
    generalize hearlier : list.foldl (Tally.add policy) {} = earlier at hsum hpos hsince ⊢
    have hdelta := hnonneg penalty hpenalty
    -- The tally counts from a penalty of the list, so no interval has passed since.
    have hkept : max 0 (earlier.score - earlier.intervals policy penalty.1 * policy.decayStep) =
          earlier.score ∧
        (earlier.score = 0 ∨ earlier.intervals policy penalty.1 = 0) := by
      rcases hsince with hzero | ⟨last, hlast, hsince⟩
      · refine ⟨?_, .inl hzero⟩
        rw [hzero, max_eq_left (by linarith [earlier.decay_nonneg policy penalty.1])]
      · have hnone : earlier.intervals policy penalty.1 = 0 := by
          refine Int.ediv_eq_zero_of_lt (le_max_left _ _) (max_lt ?_ ?_)
          · linarith [policy.interval_pos]
          · rw [hsince]
            exact hclose last (mem_append_left _ hlast) penalty hpenalty
        refine ⟨?_, .inr hnone⟩
        rw [hnone, zero_mul, sub_zero, max_eq_right hpos]
    have hscore : (earlier.add policy penalty).score = earlier.score + penalty.2 := by
      show max 0 (earlier.score - earlier.intervals policy penalty.1 * policy.decayStep) + _ = _
      rw [hkept.1]
    refine ⟨?_, ?_, ?_⟩
    · rw [hscore, hsum, map_singleton, sum_singleton]
    · rw [hscore]
      exact add_nonneg hpos hdelta
    · have htime : (earlier.add policy penalty).since = if penalty.2 = 0 then earlier.since +
          earlier.intervals policy penalty.1 * policy.decayIntervalSeconds else penalty.1 := rfl
      by_cases hnothing : penalty.2 = 0
      · -- A penalty of zero leaves the time as it was.
        rcases hkept.2 with hzero | hnone
        · left
          rw [hscore, hzero, hnothing, add_zero]
        · rw [hscore, htime, if_pos hnothing, hnone, hnothing, zero_mul, add_zero, add_zero]
          refine hsince.imp_right ?_
          rintro ⟨last, hlast, heq⟩
          exact ⟨last, mem_append_left _ hlast, heq⟩
      · right
        rw [htime, if_neg hnothing]
        exact ⟨penalty, hpenalty, rfl⟩

/-- An endpoint with a ban that lasts is banned. -/
theorem PeerStore.banned_of_banUntil
    (h : (db.peerInfo endpoint).bind PeerInfo.banUntil = some until_) (hlasts : now < until_) :
    db.isPeerCurrentlyBanned now endpoint := by
  obtain ⟨info, hinfo, hban⟩ := Option.bind_eq_some_iff.mp h
  unfold isPeerCurrentlyBanned
  rw [hinfo, Bool.or_eq_true]
  left
  rw [Option.any_some, hban, Option.any_some, decide_eq_true_iff]
  exact hlasts

/-- **Misbehaviour is accounted for across reconnects.** Take an endpoint without sanctions, in a
book with room for it, and events on it at times that do not decrease, among them handshakes that
find no score and no lasting ban. Then the stored score is the tally of the penalties; the last
event does not clear or shorten a ban that lasts; a penalty that brings the tally to the threshold
bans the endpoint; and the tally of penalties within one interval is their sum. -/
theorem misbehaviour_kept (policy : PeerPolicy) (known : Finset Endpoint) (endpoint : Endpoint)
    (db : PeerStore) (events : List (ℤ × PeerEvent)) (hknown : endpoint ∈ known)
    (hcapacity : known.card ≤ policy.peerbookMaxSize) (hstore : Holds known endpoint {} db)
    (htimes : (events.map Prod.fst).Pairwise (· ≤ ·))
    (hfair : Before (Fair policy endpoint db) events) :
    (((db.run policy endpoint events).peerInfo endpoint).bind
      PeerInfo.misbehaviorScore).getD 0 = (tally policy events).score ∧
    (∀ done now event until_, events = done ++ [(now, event)] →
      ((db.run policy endpoint done).peerInfo endpoint).bind PeerInfo.banUntil = some until_ →
      now < until_ →
        ∃ later, ((db.run policy endpoint events).peerInfo endpoint).bind PeerInfo.banUntil =
          some later ∧ until_ ≤ later) ∧
    (∀ done now event delta, events = done ++ [(now, event)] → event.delta? = some delta →
      policy.banThreshold ≤ (tally policy events).score →
        (db.run policy endpoint events).isPeerCurrentlyBanned now endpoint) ∧
    ((∀ a ∈ penalties events, ∀ b ∈ penalties events, b.1 - a.1 < policy.decayIntervalSeconds) →
      (tally policy events).score = ((penalties events).map Prod.snd).sum) := by
  have hinfo := hstore.ofInfo_run hknown hcapacity
  have haccounts := hstore.accounts_run hknown hcapacity hfair
  refine ⟨?_, ?_, ?_, ?_⟩
  · rw [← haccounts.score, ← hinfo events]
    rfl
  · rintro done now event until_ rfl hban hlasts
    obtain ⟨-, hlast⟩ := before_concat.mp hfair
    have hearlier : ∀ earlier ∈ done, earlier.1 ≤ now := by
      intro earlier hmem
      rw [map_append, pairwise_append] at htimes
      exact htimes.2.2 earlier.1 (mem_map_of_mem hmem) now (by simp)
    have hrun : (Sanctions.run policy done).banUntil = some until_ := by
      rw [← hinfo done]
      exact hban
    obtain ⟨later, hlater, hle⟩ := hstore.ban_step hknown hcapacity hearlier hlast hrun hlasts
    rw [← hinfo (done ++ [(now, event)])] at hlater
    exact ⟨later, hlater, hle⟩
  · rintro done now event delta rfl hdelta hthreshold
    obtain ⟨hbefore, hnonneg, hcap, -⟩ := before_concat.mp hfair
    have hdone := hstore.accounts_run hknown hcapacity hbefore
    rw [tally_concat] at hcap hthreshold
    simp only [hdelta] at hcap hthreshold
    -- The penalty writes the new ban.
    have hban : (Sanctions.run policy (done ++ [(now, event)])).banUntil =
        some (now + policy.banDurationSeconds) := by
      have hstep : (Sanctions.run policy done).step policy (now, event) =
          (Sanctions.run policy done).penalize policy now delta := by
        cases event with
        | handshake view => cases hdelta
        | height session height => cases hdelta
        | penalty details => cases hdelta; rfl
        | failure error given =>
          unfold Sanctions.step
          simp only [hdelta]
      rw [Sanctions.run_concat, hstep]
      refine if_pos ?_
      rw [hdone.nextScore (hnonneg delta hdelta) hcap]
      exact hthreshold
    rw [← hinfo (done ++ [(now, event)])] at hban
    exact PeerStore.banned_of_banUntil hban (by linarith [policy.duration_pos])
  · intro hclose
    refine (foldl_add_undecayed policy ?_ hclose).1
    intro penalty hpenalty
    obtain ⟨event, hevent, hmap⟩ := List.mem_filterMap.mp hpenalty
    obtain ⟨delta, hdelta, rfl⟩ := Option.map_eq_some_iff.mp hmap
    obtain ⟨done, rest, rfl⟩ := append_of_mem hevent
    exact (hfair done event rest rfl).1 delta hdelta

end

/-! ### Samples -/

namespace SampleMisbehaviour

/-- The default settings. -/
def policy : PeerPolicy := .configure 25 50 100 1800 300 5 1024 1 30

def endpoint : Endpoint := ⟨str "10.0.0.1", 18444⟩

/-- An empty book with an empty repository. -/
def emptyBook : PeerStore := { repository := some ∅ }

/-- A penalty of 60 for an inbound session that is established. -/
def sixty : PeerEvent := .penalty {
  event := "invalid_tx"
  delta := 60
  direction := some .inbound
  handshakeComplete := some true
  lastError := some "invalid tx" }

/-- The peer connects again. -/
def reconnect : PeerEvent := .handshake {
  dialled := none
  direction := some .inbound
  source := .discovered
  startHeight := 7
  nodeId := str "peer"
  aliases := [] }

private theorem holds_emptyBook : Holds {endpoint} endpoint {} emptyBook where
  book := rfl
  rows := by
    intro rows hrows
    cases hrows
    rfl
  absent := by
    intro rows hrows _
    cases hrows
    rfl
  known_book := fun other hother => absurd rfl hother
  known_rows := by
    intro rows hrows other hother
    cases hrows
    exact absurd rfl hother

/-- A handshake, then two penalties within the same interval. -/
def events : List (ℤ × PeerEvent) := [(0, reconnect), (5, sixty), (10, sixty)]

private theorem fair_events : Before (Fair policy endpoint emptyBook) events := by
  have hsplit : events = ([] ++ [(0, reconnect)] ++ [(5, sixty)]) ++ [(10, sixty)] := rfl
  rw [hsplit, before_concat, before_concat, before_concat]
  refine ⟨⟨⟨before_nil _, ?_, ?_, ?_⟩, ?_, ?_, ?_⟩, ?_, ?_, ?_⟩
  · intro delta hdelta
    cases hdelta
  · decide +kernel
  · intro view _
    exact ⟨le_rfl, fun until_ hban => nomatch hban⟩
  · rintro delta ⟨⟩
    decide
  · decide +kernel
  · rintro view ⟨⟩
  · rintro delta ⟨⟩
    decide
  · decide +kernel
  · rintro view ⟨⟩

theorem misbehaviour_kept_banned :
    Before (Fair policy endpoint emptyBook) events ∧ (tally policy events).score = 120 ∧
    (emptyBook.run policy endpoint events).isPeerCurrentlyBanned 10 endpoint := by
  have htally : (tally policy events).score = 120 := by decide +kernel
  obtain ⟨-, -, hbanned, -⟩ := misbehaviour_kept policy {endpoint} endpoint emptyBook events
    (Finset.mem_singleton_self _) (by decide) holds_emptyBook (by decide) fair_events
  refine ⟨fair_events, htally, hbanned [(0, reconnect), (5, sixty)] 10 sixty 60 rfl rfl ?_⟩
  rw [htally]
  decide

/-- The peer is penalised with 60, connects again and is penalised with 60. The penalties add up to
120, within one interval; the stored score is 60, and the peer is not banned. -/
theorem score_forgotten :
    (tally policy [(0, sixty), (5, reconnect), (10, sixty)]).score = 120 ∧
    ((emptyBook.run policy endpoint [(0, sixty), (5, reconnect), (10, sixty)]).peerInfo
      endpoint).bind PeerInfo.misbehaviorScore = some 60 ∧
    ¬ (emptyBook.run policy endpoint
      [(0, sixty), (5, reconnect), (10, sixty)]).isPeerCurrentlyBanned 10 endpoint := by
  decide +kernel

end SampleMisbehaviour

end Chipcoin

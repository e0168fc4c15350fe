import Chipcoin.Node.Peers

/-!
# Operator peers across restarts

An endpoint that the operator named is kept as `manual`, and a later sighting is not to turn it into
a `discovered` one. The service takes the stronger of two sources, but it looks for the source it
has in memory only, and the repository takes what it is handed. After a restart the memory is empty
until the peers are listed, so the first call on an endpoint overwrites what the repository kept.

* `Backed`, `Mirrored`: a record in memory says of an endpoint what its row says, or nothing.
* `Mirrored.listed`: listing the peers makes the two agree.
* `PeerCall.Keeps`: the memory knows the source, or the call does not state a lower one.
* `operatorPeers_kept`: a call lowers no persisted source exactly when it meets that condition.
* `SampleOperator.manual_forgotten`: a manual peer that is discovered after a restart.
-/

namespace Chipcoin

open PeerStore

/-! ### Sources -/

/-- The rank of a source; an unknown one is below all. -/
def sourceRank (source : Option PeerSource) : ℕ := source.elim 0 PeerSource.priority

private theorem sourceRank_preferredPeerSource (existing incoming : Option PeerSource) :
    sourceRank (preferredPeerSource existing incoming) =
      max (sourceRank existing) (sourceRank incoming) := by
  cases existing with
  | none => exact (Nat.zero_max _).symm
  | some existing =>
    cases incoming with
    | none => exact (Nat.max_zero _).symm
    | some incoming =>
      unfold preferredPeerSource sourceRank
      dsimp only [Option.elim]
      split_ifs with h
      · exact (max_eq_right h.le).symm
      · exact (max_eq_left (not_lt.mp h)).symm

private theorem preferredPeerSource_self (source : Option PeerSource) :
    preferredPeerSource source source = source := by
  cases source with
  | none => rfl
  | some source => simp [preferredPeerSource]

/-- What was preferred over a source is preferred over it again. -/
theorem preferredPeerSource_idem (existing incoming : Option PeerSource) :
    preferredPeerSource existing (preferredPeerSource existing incoming) =
      preferredPeerSource existing incoming := by
  cases existing with
  | none => rfl
  | some existing =>
    cases incoming with
    | none => exact preferredPeerSource_self _
    | some incoming =>
      unfold preferredPeerSource
      dsimp only
      split_ifs with h <;> simp [h]

/-! ### Records and rows -/

/-- The fields that listing the peers has to bring together. -/
structure Standing where
  source : Option PeerSource
  banUntil : Option ℤ
  misbehaviorScore : Option ℤ
  backoffUntil : Option ℤ
deriving DecidableEq

def PeerInfo.standing (peer : PeerInfo) : Standing :=
  ⟨peer.source, peer.banUntil, peer.misbehaviorScore, peer.backoffUntil⟩

/-- A record states no more about its standing than the row of the endpoint. -/
structure Backed (record row : PeerInfo) : Prop where
  source : record.source = none ∨ record.source = row.source
  banUntil : record.banUntil = none ∨ record.banUntil = row.banUntil
  misbehaviorScore : record.misbehaviorScore = none ∨ record.misbehaviorScore = row.misbehaviorScore
  backoffUntil : record.backoffUntil = none ∨ record.backoffUntil = row.backoffUntil

section

variable {α : Type}

/-- What is stated over a row is stated by the row. -/
theorem none_or_eq_or (stated kept : Option α) : stated = none ∨ stated = stated.or kept := by
  cases stated with
  | none => exact .inl rfl
  | some value => exact .inr rfl

private theorem or_none_or_eq {held kept : Option α} (h : held = none ∨ held = kept)
    (stated : Option α) :
    stated.or held = none ∨ stated.or held = stated.or kept := by
  cases stated with
  | none => exact h
  | some value => exact .inr rfl

private theorem or_eq_of_none_or_eq {held kept : Option α} (h : held = none ∨ held = kept) :
    kept.or held = kept := by
  rcases h with rfl | rfl
  · exact Option.or_none
  · cases held <;> rfl

end

namespace Backed

variable {record row peer : PeerInfo}

private theorem refl (peer : PeerInfo) :
    Backed peer peer := ⟨.inr rfl, .inr rfl, .inr rfl, .inr rfl⟩

/-- A new record over an old row. -/
theorem coalesce (row peer : PeerInfo) : Backed peer (row.coalesce peer) where
  source := none_or_eq_or ..
  banUntil := none_or_eq_or ..
  misbehaviorScore := none_or_eq_or ..
  backoffUntil := none_or_eq_or ..

/-- A record and its row take the same observation, if its source is not below that of the
record. -/
theorem merge (h : Backed record row)
    (hsource : preferredPeerSource record.source peer.source = peer.source) :
    Backed (record.merge peer) (row.coalesce peer) where
  source := by
    show preferredPeerSource record.source peer.source = none ∨
      preferredPeerSource record.source peer.source = peer.source.or row.source
    rw [hsource]
    exact none_or_eq_or ..
  banUntil := or_none_or_eq h.banUntil _
  misbehaviorScore := or_none_or_eq h.misbehaviorScore _
  backoffUntil := or_none_or_eq h.backoffUntil _

/-- **Listing a row.** The record that it is added to has the standing of the row. -/
theorem standing_merge (h : Backed record row) : (record.merge row).standing = row.standing := by
  have hsource : preferredPeerSource record.source row.source = row.source := by
    rcases h.source with hnone | hsame
    · rw [hnone]
      rfl
    · rw [hsame, preferredPeerSource_self]
  have hban : (record.merge row).banUntil = row.banUntil := or_eq_of_none_or_eq h.banUntil
  have hscore : (record.merge row).misbehaviorScore = row.misbehaviorScore :=
    or_eq_of_none_or_eq h.misbehaviorScore
  have hbackoff : (record.merge row).backoffUntil = row.backoffUntil :=
    or_eq_of_none_or_eq h.backoffUntil
  unfold PeerInfo.standing
  rw [hban, hscore, hbackoff]
  exact congrArg (Standing.mk · _ _ _) hsource

private theorem of_standing (h : record.standing = row.standing) : Backed record row := by
  obtain ⟨hsource, hban, hscore, hbackoff⟩ := Standing.mk.inj h
  exact ⟨.inr hsource, .inr hban, .inr hscore, .inr hbackoff⟩

end Backed

/-! ### The service -/

/-- The row that the repository has for an endpoint. -/
def PeerStore.storedRow (db : PeerStore) (endpoint : Endpoint) : Option PeerInfo :=
  db.repository.bind (·[endpoint]?)

/-- The persisted source of an endpoint. -/
def PeerStore.persistedSource (db : PeerStore) (endpoint : Endpoint) : Option PeerSource :=
  (db.storedRow endpoint).bind PeerInfo.source

/-- The source of an endpoint in memory. -/
def PeerStore.memorySource (db : PeerStore) (endpoint : Endpoint) : Option PeerSource :=
  db.peerbook[endpoint]?.bind PeerInfo.source

/-- The service has a repository, and every record in memory is backed by a row. -/
structure Mirrored (db : PeerStore) : Prop where
  repository : db.repository.isSome
  backed : ∀ endpoint record, db.peerbook[endpoint]? = some record →
    ∃ row, db.storedRow endpoint = some row ∧ Backed record row

private theorem PeerStore.storedRow_add {db : PeerStore} (hrepository : db.repository.isSome)
    (endpoint other : Endpoint) (peer : PeerInfo) :
    (db.add endpoint peer).storedRow other =
      if other = endpoint then some ((db.storedRow endpoint).elim peer (·.coalesce peer))
      else db.storedRow other := by
  obtain ⟨rows, hrows⟩ := Option.isSome_iff_exists.mp hrepository
  simp only [storedRow, add, hrows, Option.map_some, Option.bind_some, PeerTable.getElem?_upsert]
  cases rows[endpoint]? <;> rfl

private theorem PeerStore.peerbook_add (db : PeerStore) (endpoint other : Endpoint)
    (peer : PeerInfo) :
    (db.add endpoint peer).peerbook[other]? =
      if other = endpoint then some (db.peerbook[endpoint]?.elim peer (·.merge peer))
      else db.peerbook[other]? := by
  rw [add, PeerTable.getElem?_upsert]
  cases db.peerbook[endpoint]? <;> rfl

private theorem PeerStore.storedRow_removePeer (db : PeerStore) (endpoint other : Endpoint) :
    (db.removePeer endpoint).storedRow other =
      if other = endpoint then none else db.storedRow other := by
  unfold storedRow removePeer
  cases db.repository with
  | none => simp
  | some rows => exact Table.getElem?_erase ..

/-- Rows that are added to the records one after another. -/
theorem PeerTable.getElem?_foldl_upsert (combine : PeerInfo → PeerInfo → PeerInfo)
    {list : List (Endpoint × PeerInfo)} (hnodup : (list.map Prod.fst).Nodup) (book : PeerTable)
    (endpoint : Endpoint) :
    (list.foldl (fun book row => upsert combine book row.1 row.2) book)[endpoint]? =
      match list.find? (·.1 = endpoint) with
      | none => book[endpoint]?
      | some row => some (book[endpoint]?.elim row.2 (combine · row.2)) := by
  induction list generalizing book with
  | nil => rfl
  | cons row rest ih =>
    rw [List.map_cons, List.nodup_cons] at hnodup
    rw [List.foldl_cons, ih hnodup.2, getElem?_upsert]
    by_cases h : row.1 = endpoint
    · -- No later row is about this endpoint.
      rw [Table.find?_key_eq_none (h ▸ hnodup.1), List.find?_cons_of_pos (by simpa using h),
        if_pos h.symm, h]
      cases book[endpoint]? <;> rfl
    · rw [List.find?_cons_of_neg (by simpa using h), if_neg (Ne.symm h)]

/-- **What listing does to the memory**: the row of an endpoint is added to its record. -/
theorem PeerStore.peerbook_listPeers (db : PeerStore) (endpoint : Endpoint) :
    db.listPeers.2.peerbook[endpoint]? =
      match db.storedRow endpoint with
      | none => db.peerbook[endpoint]?
      | some row => some (db.peerbook[endpoint]?.elim row (·.merge row)) := by
  obtain ⟨book, repository⟩ := db
  cases repository with
  | none => rfl
  | some rows =>
    have hnodup := Table.nodup_keys rows
    refine (PeerTable.getElem?_foldl_upsert PeerInfo.merge hnodup book endpoint).trans ?_
    have hfind : rows.toList.find? (·.1 = endpoint) =
        rows[endpoint]?.map (Prod.mk endpoint) := by
      ext ⟨other, info⟩
      rw [Table.find?_key_eq_some hnodup, Std.ExtTreeMap.mem_toList_iff_getElem?_eq_some,
        Option.map_eq_some_iff]
      constructor
      · rintro ⟨hrow, rfl⟩
        exact ⟨info, hrow, rfl⟩
      · rintro ⟨row, hrow, hpair⟩
        obtain ⟨rfl, rfl⟩ := Prod.mk.inj hpair
        exact ⟨hrow, rfl⟩
    rw [hfind, storedRow, Option.bind_some]
    cases rows[endpoint]? <;> rfl

private theorem PeerStore.storedRow_listPeers (db : PeerStore) (endpoint : Endpoint) :
    db.listPeers.2.storedRow endpoint = db.storedRow endpoint := rfl

namespace Mirrored

variable {db : PeerStore}

/-- A new process on old rows. -/
theorem restart (hrepository : db.repository.isSome) : Mirrored { db with peerbook := ∅ }
    where
  repository := hrepository
  backed := by
    intro endpoint record hrecord
    exact absurd hrecord (by simp)

section

variable (h : Mirrored db)
include h

/-- The source in memory is the persisted one, if there is one in memory. -/
theorem memorySource_eq (endpoint : Endpoint) :
    db.memorySource endpoint = none ∨
      db.memorySource endpoint = db.persistedSource endpoint := by
  unfold memorySource persistedSource
  cases hrecord : db.peerbook[endpoint]? with
  | none => exact .inl rfl
  | some record =>
    obtain ⟨row, hrow, hbacked⟩ := h.backed endpoint record hrecord
    rw [hrow]
    exact hbacked.source

/-- Adding a record whose source is not below the one in memory. -/
theorem add {endpoint : Endpoint} {peer : PeerInfo}
    (hsource : preferredPeerSource (db.memorySource endpoint) peer.source = peer.source) :
    Mirrored (db.add endpoint peer) where
  repository := by
    rw [PeerStore.add, Option.isSome_map]
    exact h.repository
  backed := by
    intro other record hrecord
    rw [peerbook_add] at hrecord
    rw [storedRow_add h.repository]
    split_ifs at hrecord ⊢
    · obtain rfl := Option.some.inj hrecord
      refine ⟨_, rfl, ?_⟩
      cases hold : db.peerbook[endpoint]? with
      | none =>
        cases db.storedRow endpoint with
        | none => exact .refl peer
        | some row => exact .coalesce row peer
      | some old =>
        obtain ⟨row, hrow, hbacked⟩ := h.backed endpoint old hold
        rw [memorySource, hold] at hsource
        rw [hrow]
        exact hbacked.merge hsource
    · exact h.backed other record hrecord

private theorem removePeer (endpoint : Endpoint) :
    Mirrored (db.removePeer endpoint) where
  repository := by
    rw [PeerStore.removePeer, Option.isSome_map]
    exact h.repository
  backed := by
    intro other record hrecord
    rw [PeerStore.removePeer, Table.getElem?_erase] at hrecord
    rw [storedRow_removePeer]
    split_ifs at hrecord ⊢
    exact h.backed other record hrecord

/-- **After listing the peers, memory and repository agree.** -/
theorem listed (endpoint : Endpoint) :
    db.listPeers.2.peerbook[endpoint]?.map PeerInfo.standing =
      (db.listPeers.2.storedRow endpoint).map PeerInfo.standing := by
  rw [peerbook_listPeers, storedRow_listPeers]
  cases hrow : db.storedRow endpoint with
  | none =>
    -- An endpoint without a row has no record either.
    cases hrecord : db.peerbook[endpoint]? with
    | none => rfl
    | some record =>
      obtain ⟨row, hsome, -⟩ := h.backed endpoint record hrecord
      rw [hrow] at hsome
      cases hsome
  | some row =>
    cases hrecord : db.peerbook[endpoint]? with
    | none => rfl
    | some record =>
      obtain ⟨row', hrow', hbacked⟩ := h.backed endpoint record hrecord
      obtain rfl := Option.mem_unique hrow hrow'
      exact congrArg some hbacked.standing_merge

private theorem listPeers : Mirrored db.listPeers.2 where
  repository := h.repository
  backed := by
    intro endpoint record hrecord
    have hstanding := h.listed endpoint
    rw [hrecord, Option.map_some] at hstanding
    obtain ⟨row, hrow, heq⟩ := Option.map_eq_some_iff.mp hstanding.symm
    exact ⟨row, hrow, .of_standing heq.symm⟩

end

end Mirrored

/-! ### Calls -/

/-- The calls of the service on its peers, and the restart of its process. -/
inductive PeerCall
  | addPeer (now : ℤ) (endpoint : Endpoint) (source : PeerSource)
  | recordPeerObservation (now : ℤ) (endpoint : Endpoint) (observed : PeerInfo)
  | listPeers
  | restart

/-- What a call does to the peers. -/
def PeerStore.after (db : PeerStore) : PeerCall → PeerStore
  | .addPeer now endpoint source => db.addPeer now endpoint source
  | .recordPeerObservation now endpoint observed =>
    db.recordPeerObservation now endpoint observed
  | .listPeers => db.listPeers.2
  | .restart => { db with peerbook := ∅ }

/-- The calls one after another, on the rows that a process finds when it starts. -/
def runPeerCalls (rows : PeerTable) (calls : List PeerCall) : PeerStore :=
  calls.foldl PeerStore.after { repository := some rows }

/-- **The memory knows the source, or the call does not state a lower one.** An observation may also
state none, unless it replaces a record. -/
def PeerCall.Keeps (db : PeerStore) : PeerCall → Prop
  | .addPeer _ endpoint source => (db.memorySource endpoint).isSome ∨
      sourceRank (db.persistedSource endpoint) ≤ source.priority
  | .recordPeerObservation _ endpoint observed => (db.memorySource endpoint).isSome ∨
      (observed.source = none ∧
        ¬ (isSuccessful observed ∧ db.peerbook[endpoint]?.isSome)) ∨
      sourceRank (db.persistedSource endpoint) ≤ sourceRank observed.source
  | .listPeers | .restart => True

/-- The record that an observation adds, and the store that it is added to. -/
theorem PeerStore.recordPeerObservation_eq (db : PeerStore) (now : ℤ) (endpoint : Endpoint)
    (observed : PeerInfo) :
    ∃ peer : PeerInfo,
      peer.source = preferredPeerSource (db.memorySource endpoint) observed.source ∧
      db.recordPeerObservation now endpoint observed =
        (if isSuccessful observed ∧ db.peerbook[endpoint]?.isSome
          then db.removePeer endpoint else db).add endpoint peer := by
  refine ⟨_, ?_, rfl⟩
  split_ifs <;> rfl

namespace Mirrored

variable {db : PeerStore}

/-- Every call keeps the records backed. -/
theorem after (h : Mirrored db) (call : PeerCall) : Mirrored (db.after call) := by
  cases call with
  | addPeer now endpoint source =>
    refine h.add ?_
    exact preferredPeerSource_idem ..
  | recordPeerObservation now endpoint observed =>
    obtain ⟨peer, hsource, heq⟩ := db.recordPeerObservation_eq now endpoint observed
    show Mirrored (db.recordPeerObservation now endpoint observed)
    rw [heq]
    split_ifs with hreplaces
    · refine (h.removePeer endpoint).add ?_
      rw [memorySource, PeerStore.removePeer, Table.getElem?_erase, if_pos rfl]
      rfl
    · refine h.add ?_
      rw [hsource]
      exact preferredPeerSource_idem ..
  | listPeers => exact h.listPeers
  | restart => exact restart h.repository

private theorem run (rows : PeerTable) (calls : List PeerCall) :
    Mirrored (runPeerCalls rows calls) := by
  unfold runPeerCalls
  induction calls using List.reverseRecOn with
  | nil => exact @restart { repository := some rows } rfl
  | append_singleton calls call ih =>
    rw [List.foldl_concat]
    exact ih.after call

private theorem notLowered_add (h : Mirrored db) {endpoint : Endpoint} {peer : PeerInfo} :
    (∀ other, sourceRank (db.persistedSource other) ≤
        sourceRank ((db.add endpoint peer).persistedSource other)) ↔
      peer.source = none ∨
        sourceRank (db.persistedSource endpoint) ≤ sourceRank peer.source := by
  -- The table coalesces: a stated source overwrites the stored one.
  have hadded : (db.add endpoint peer).persistedSource endpoint =
      peer.source.or (db.persistedSource endpoint) := by
    unfold persistedSource
    rw [storedRow_add h.repository, if_pos rfl, Option.bind_some]
    cases db.storedRow endpoint with
    | none => exact Option.or_none.symm
    | some row => rfl
  constructor
  · intro hall
    have hself := hall endpoint
    rw [hadded] at hself
    cases hpeer : peer.source with
    | none => exact .inl rfl
    | some source =>
      rw [hpeer] at hself
      exact .inr hself
  · intro hkeeps other
    by_cases hother : other = endpoint
    · rw [hother, hadded]
      rcases hkeeps with hnone | hle
      · rw [hnone, Option.none_or]
      · cases hpeer : peer.source with
        | none => rw [Option.none_or]
        | some source =>
          rw [hpeer] at hle
          exact hle
    · unfold persistedSource
      rw [storedRow_add h.repository, if_neg hother]

private theorem notLowered_replace (h : Mirrored db) {endpoint : Endpoint} {peer : PeerInfo} :
    (∀ other, sourceRank (db.persistedSource other) ≤
        sourceRank (((db.removePeer endpoint).add endpoint peer).persistedSource other)) ↔
      sourceRank (db.persistedSource endpoint) ≤ sourceRank peer.source := by
  have hrow : ∀ other, ((db.removePeer endpoint).add endpoint peer).storedRow other =
      if other = endpoint then some peer else db.storedRow other := by
    intro other
    rw [storedRow_add (h.removePeer endpoint).repository, storedRow_removePeer,
      storedRow_removePeer, if_pos rfl]
    split_ifs <;> rfl
  unfold persistedSource
  constructor
  · intro hall
    have hself := hall endpoint
    rwa [hrow, if_pos rfl] at hself
  · intro hle other
    rw [hrow]
    split_ifs with hother
    · rw [hother]
      exact hle
    · exact le_rfl

private theorem le_preferred_iff (h : Mirrored db) (endpoint : Endpoint)
    (stated : Option PeerSource) :
    sourceRank (db.persistedSource endpoint) ≤
        sourceRank (preferredPeerSource (db.memorySource endpoint) stated) ↔
      (db.memorySource endpoint).isSome ∨
        sourceRank (db.persistedSource endpoint) ≤ sourceRank stated := by
  rw [sourceRank_preferredPeerSource, le_max_iff]
  refine or_congr_left' fun hstated => ?_
  rcases h.memorySource_eq endpoint with hnone | hsame
  · rw [hnone]
    refine iff_of_false (fun hle => hstated ?_) (by simp)
    exact hle.trans (Nat.zero_le _)
  · rw [hsame]
    refine iff_of_true le_rfl ?_
    -- A source that ranks below nothing is not unknown.
    cases hpersisted : db.persistedSource endpoint with
    | none =>
      rw [hpersisted] at hstated
      exact absurd (Nat.zero_le _) hstated
    | some source => rfl

/-- **One call.** It lowers no persisted source exactly when it meets the condition. -/
theorem notLowered_iff (h : Mirrored db) (call : PeerCall) :
    (∀ endpoint, sourceRank (db.persistedSource endpoint) ≤
        sourceRank ((db.after call).persistedSource endpoint)) ↔ call.Keeps db := by
  cases call with
  | addPeer now endpoint source =>
    refine h.notLowered_add.trans ?_
    show preferredPeerSource (db.memorySource endpoint) (some source) = none ∨
        sourceRank (db.persistedSource endpoint) ≤
          sourceRank (preferredPeerSource (db.memorySource endpoint) (some source)) ↔ _
    rw [h.le_preferred_iff]
    refine or_iff_right_of_imp fun hnone => absurd hnone ?_
    cases db.memorySource endpoint with
    | none => simp [preferredPeerSource]
    | some existing =>
      unfold preferredPeerSource
      dsimp only
      split_ifs <;> simp
  | recordPeerObservation now endpoint observed =>
    obtain ⟨peer, hsource, heq⟩ := db.recordPeerObservation_eq now endpoint observed
    show (∀ other, _ ≤ sourceRank
      ((db.recordPeerObservation now endpoint observed).persistedSource other)) ↔ _
    rw [heq, PeerCall.Keeps]
    split_ifs with hreplaces
    · -- A success deletes the row first, so nothing of the old source is left.
      rw [h.notLowered_replace, hsource, h.le_preferred_iff]
      simp [hreplaces]
    · rw [h.notLowered_add, hsource, h.le_preferred_iff]
      simp only [hreplaces, not_false_eq_true, and_true]
      cases hmemory : db.memorySource endpoint with
      | none =>
        show observed.source = none ∨ _ ↔ _
        simp
      | some existing => simp
  -- Listing and restarting do not write.
  | listPeers => exact iff_of_true (fun endpoint => le_rfl) trivial
  | restart => exact iff_of_true (fun endpoint => le_rfl) trivial

end Mirrored

/-- **Operator peers.** After any calls and restarts, on any rows: listing the peers makes memory
and repository agree about every endpoint, and the next call lowers no persisted source exactly when
the memory knows the source of the endpoint or the call does not state a lower one. -/
theorem operatorPeers_kept (rows : PeerTable) (calls : List PeerCall) :
    (∀ endpoint,
      (runPeerCalls rows (calls ++ [.listPeers])).peerbook[endpoint]?.map PeerInfo.standing =
        ((runPeerCalls rows (calls ++ [.listPeers])).storedRow endpoint).map PeerInfo.standing) ∧
    ∀ call,
      (∀ endpoint, sourceRank ((runPeerCalls rows calls).persistedSource endpoint) ≤
          sourceRank ((runPeerCalls rows (calls ++ [call])).persistedSource endpoint)) ↔
        call.Keeps (runPeerCalls rows calls) := by
  have hmirrored := Mirrored.run rows calls
  have hstep : ∀ call, runPeerCalls rows (calls ++ [call]) =
      (runPeerCalls rows calls).after call := fun call => List.foldl_concat ..
  refine ⟨fun endpoint => ?_, fun call => ?_⟩
  · rw [hstep]
    exact hmirrored.listed endpoint
  · rw [hstep]
    exact hmirrored.notLowered_iff call

namespace SampleOperator

def endpoint : Endpoint := ⟨str "10.0.0.1", 18444⟩

/-- The operator adds a peer, the process restarts, and another peer mentions the endpoint. -/
def calls : List PeerCall := [.addPeer 0 endpoint .manual, .restart,
    .addPeer 1 endpoint .discovered]

/-- **A manual peer is downgraded.** The repository had it as manual before the last call, which
stores it as discovered. -/
theorem manual_forgotten :
    (runPeerCalls ∅ (calls.take 2)).persistedSource endpoint = some .manual ∧
      (runPeerCalls ∅ calls).persistedSource endpoint = some .discovered := by
  decide +kernel

end SampleOperator

end Chipcoin

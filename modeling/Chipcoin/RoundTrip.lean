import Chipcoin.Consensus.Decoding
import Chipcoin.Lib.RoundTrip
import Chipcoin.Lib.Table

/-!
# Round trips of the consensus encoding

The serialiser writes one form of an object; the deserialiser is permissive and takes lengths in any
of four forms and metadata pairs in any order, with repetitions. Both are compared with the format
that the deserialiser reads (`Codes`): what is well formed is written as one of its words, what has
a word is well formed, and no word is shorter than the one that is written.

So an object is read back from its serialisation, whatever follows it, and an object that was read
can be serialised, in no more octets, and read again (`codec_round_trip`).
-/

namespace Chipcoin

open Checked Decoding List

variable {n width : ℕ} {word : Bytes}

/-! ### Well-formed objects -/

/-- An integer that fits an unsigned field of some width. -/
def FitsField (width : ℕ) (v : Int) : Prop := 0 ≤ v ∧ v < 256 ^ width

/-- A number that fits the largest form of a length. -/
def FitsLength (n : ℕ) : Prop := n < 256 ^ 8

/-- The text of a hash: sixty-four lower-case hexadecimal digits. -/
def IsHash (text : PyStr) : Prop := ∃ raw : Bytes, raw.length = 32 ∧ text = hex raw

/-- A text that has a UTF-8 form, of a length that can be written. -/
def IsText (text : PyStr) : Prop := ∃ raw, utf8Encode? text = some raw ∧ FitsLength raw.length

structure OutPoint.WellFormed (outpoint : OutPoint) : Prop where
  txid : IsHash outpoint.txid
  index : FitsField 4 outpoint.index

/-- An input of a transaction of some version. -/
structure TxInput.WellFormed (version : Int) (txInput : TxInput) : Prop where
  previousOutput : txInput.previousOutput.WellFormed
  sigSchemeId : if version ≥ 2 then FitsField 1 txInput.sigSchemeId else txInput.sigSchemeId = 0
  signature : FitsLength txInput.signature.length
  publicKey : FitsLength txInput.publicKey.length
  sequence : FitsField 4 txInput.sequence

structure TxOutput.WellFormed (output : TxOutput) : Prop where
  value : FitsField 8 output.value
  recipient : IsText output.recipient

structure Metadata.WellFormed (metadata : Metadata) : Prop where
  count : FitsLength metadata.size
  pairs : ∀ pair ∈ metadata.toList, IsText pair.1 ∧ IsText pair.2

structure Transaction.WellFormed (tx : Transaction) : Prop where
  version : FitsField 4 tx.version
  inputCount : FitsLength tx.inputs.length
  inputs : ∀ txInput ∈ tx.inputs, txInput.WellFormed tx.version
  outputCount : FitsLength tx.outputs.length
  outputs : ∀ output ∈ tx.outputs, output.WellFormed
  locktime : FitsField 4 tx.locktime
  metadata : tx.metadata.WellFormed

structure BlockHeader.WellFormed (header : BlockHeader) : Prop where
  version : FitsField 4 header.version
  previousBlockHash : IsHash header.previousBlockHash
  merkleRoot : IsHash header.merkleRoot
  timestamp : FitsField 4 header.timestamp
  bits : FitsField 4 header.bits
  nonce : FitsField 4 header.nonce

structure Block.WellFormed (block : Block) : Prop where
  header : block.header.WellFormed
  count : FitsLength block.transactions.length
  transactions : ∀ tx ∈ block.transactions, tx.WellFormed

/-! ### Fields, lengths and texts -/

private theorem fitsField_natCast : FitsField width n ↔ n < 256 ^ width := by
  constructor
  · intro h
    exact_mod_cast h.2
  · intro h
    exact ⟨Int.natCast_nonneg n, by exact_mod_cast h⟩

private theorem FitsField.exists_nat {v : Int} (h : FitsField width v) :
    ∃ n : ℕ, v = n ∧ n < 256 ^ width := by
  obtain ⟨n, rfl⟩ := Int.eq_ofNat_of_zero_le h.1
  exact ⟨n, rfl, fitsField_natCast.mp h⟩

theorem pack_natCast (h : n < 256 ^ width) : pack width (n : Int) = .ok (leBytes width n) := by
  have hcast : (n : Int) < 256 ^ width := by exact_mod_cast h
  rw [pack, raiseIf, if_neg (by omega)]
  rfl

/-- A field that fits is written as the format has it. -/
theorem FitsField.writes {v : Int} (h : FitsField width v) :
    ∃ (n : ℕ) (word : Bytes), v = n ∧ pack width v = .ok word ∧ fieldFormat width word n := by
  obtain ⟨n, rfl, hlt⟩ := h.exists_nat
  exact ⟨n, leBytes width n, rfl, pack_natCast hlt, hlt, rfl⟩

/-- A field of the format fits, and is written as it was. -/
theorem fieldFormat_pack (h : fieldFormat width word n) :
    FitsField width n ∧ pack width (n : Int) = .ok word := by
  obtain ⟨hlt, rfl⟩ := h
  exact ⟨fitsField_natCast.mpr hlt, pack_natCast hlt⟩

theorem encodeVarint_writes (h : FitsLength n) :
    ∃ word, encodeVarint n = .ok word ∧ varintFormat word n := by
  have hok : ∃ word, encodeVarint n = .ok word := by
    rw [FitsLength] at h
    rw [encodeVarint]
    split_ifs
    · exact ⟨_, rfl⟩
    · exact ⟨_, rfl⟩
    · exact ⟨_, rfl⟩
    · exact ⟨_, rfl⟩
    · omega
  obtain ⟨word, hword⟩ := hok
  exact ⟨word, hword, encodeVarint_ok hword⟩

private theorem varintFormat_fits (h : varintFormat word n) : FitsLength n := by
  rw [FitsLength]
  rcases h with ⟨hlt, -⟩ | ⟨hlt, -⟩ | ⟨hlt, -⟩ | ⟨hlt, -⟩
  · omega
  · omega
  · omega
  · exact hlt

/-- A smaller number is written in no more octets. -/
theorem encodeVarint_le {m : ℕ} {word' : Bytes} (hle : n ≤ m) (h : varintFormat word m)
    (hword : encodeVarint n = .ok word') : word'.length ≤ word.length := by
  rw [encodeVarint] at hword
  -- The form that the encoder takes is the first one that `n` fits, and `m` needs at least it.
  rcases h with ⟨hlt, rfl⟩ | ⟨hlt, rfl⟩ | ⟨hlt, rfl⟩ | ⟨hlt, rfl⟩ <;> split_ifs at hword <;>
    first
    | omega
    | (obtain rfl := Except.ok.inj hword
       simp [length_leBytes])

private theorem codes_encodeBytes :
    Codes (fun raw : Bytes => FitsLength raw.length) encodeBytes bytesFormat where
  writes := by
    intro raw h
    obtain ⟨count, hcount, hformat⟩ := encodeVarint_writes h
    exact ⟨count ++ raw, bind_eq_ok.mpr ⟨count, hcount, rfl⟩, count, hformat, rfl⟩
  wellFormed := by
    rintro word raw ⟨count, hcount, -⟩
    exact varintFormat_fits hcount
  shortest := by
    rintro word word' raw ⟨count, hcount, rfl⟩ hword
    obtain ⟨count', hcount', hword⟩ := bind_eq_ok.mp hword
    obtain rfl := pure_eq_ok.mp hword
    rw [length_append, length_append]
    exact Nat.add_le_add_right (encodeVarint_le le_rfl hcount hcount') _

private theorem encodeString_eq {text : PyStr} {raw : Bytes} (h : utf8Encode? text = some raw) :
    encodeString text = encodeBytes raw := by
  rw [encodeString, utf8Encode, h]
  rfl

private theorem codes_encodeString : Codes IsText encodeString stringFormat where
  writes := by
    rintro text ⟨raw, hraw, hfits⟩
    obtain ⟨word, hword, hformat⟩ := codes_encodeBytes.writes hfits
    exact ⟨word, (encodeString_eq hraw).trans hword, raw, hraw, hformat⟩
  wellFormed := by
    rintro word text ⟨raw, hraw, hformat⟩
    exact ⟨raw, hraw, codes_encodeBytes.wellFormed hformat⟩
  shortest := by
    rintro word word' text ⟨raw, hraw, hformat⟩ hword
    exact codes_encodeBytes.shortest hformat ((encodeString_eq hraw).symm.trans hword)

/-! ### Metadata -/

private theorem codes_encodePair :
    Codes (fun pair : PyStr × PyStr => IsText pair.1 ∧ IsText pair.2) encodePair pairFormat where
  writes := by
    rintro ⟨key, value⟩ ⟨hkey, hvalue⟩
    obtain ⟨first, hfirst, hformat⟩ := codes_encodeString.writes hkey
    obtain ⟨second, hsecond, hformat'⟩ := codes_encodeString.writes hvalue
    refine ⟨first ++ second, ?_, first, second, key, rfl, hformat, second, [], value, ?_, hformat',
      rfl, rfl⟩
    · exact bind_eq_ok.mpr ⟨first, hfirst, bind_eq_ok.mpr ⟨second, hsecond, rfl⟩⟩
    · rw [append_nil]
  wellFormed := by
    rintro word ⟨_, _⟩ ⟨_, _, key, -, hkey, _, _, value, -, hvalue, -, heq⟩
    obtain ⟨rfl, rfl⟩ := Prod.mk.inj heq
    exact ⟨codes_encodeString.wellFormed hkey, codes_encodeString.wellFormed hvalue⟩
  shortest := by
    rintro word word' ⟨_, _⟩ ⟨first, _, key, rfl, hkey, second, _, value, rfl, hvalue, rfl, heq⟩
      hword
    obtain ⟨rfl, rfl⟩ := Prod.mk.inj heq
    obtain ⟨first', hfirst', hword⟩ := bind_eq_ok.mp hword
    obtain ⟨second', hsecond', hword⟩ := bind_eq_ok.mp hword
    obtain rfl := pure_eq_ok.mp hword
    rw [length_append, length_append, append_nil]
    exact Nat.add_le_add (codes_encodeString.shortest hkey hfirst')
      (codes_encodeString.shortest hvalue hsecond')

/-- The pairs of a dictionary are among those that were assigned. -/
theorem mem_of_metadataOfPairs {pairs : List (PyStr × PyStr)} {pair : PyStr × PyStr}
    (h : pair ∈ (metadataOfPairs pairs).toList) : pair ∈ pairs := by
  obtain ⟨key, value⟩ := pair
  rw [Std.ExtTreeMap.mem_toList_iff_getElem?_eq_some] at h
  induction pairs using List.reverseRecOn with
  | nil => simp [metadataOfPairs] at h
  | append_singleton pairs last ih =>
    rw [metadataOfPairs, foldl_append, foldl_cons, foldl_nil, Std.ExtTreeMap.getElem?_insert] at h
    split_ifs at h with heq
    · obtain rfl := Std.LawfulEqCmp.eq_of_compare heq
      obtain rfl := Option.some.inj h
      simp
    · exact mem_append_left _ (ih h)

private theorem nodup_toList (metadata : Metadata) : metadata.toList.Nodup :=
  (Table.nodup_keys metadata).of_map _

/-- A dictionary is built from its own pairs. -/
theorem metadataOfPairs_toList (metadata : Metadata) :
    metadataOfPairs metadata.toList = metadata := by
  refine Std.ExtTreeMap.ext_getElem? fun key => ?_
  cases hvalue : metadata[key]? with
  | some value =>
    have hmem := Std.ExtTreeMap.mem_toList_iff_getElem?_eq_some.mpr hvalue
    have hfold : metadataOfPairs metadata.toList = Std.ExtTreeMap.ofList metadata.toList :=
      Std.ExtTreeMap.ofList_eq_foldl.symm
    rw [hfold]
    exact Std.ExtTreeMap.getElem?_ofList_of_mem Std.ReflCmp.compare_self
      Std.ExtTreeMap.distinct_keys_toList hmem
  | none =>
    rw [Option.eq_none_iff_forall_ne_some]
    intro value hbuilt
    have hmem := mem_of_metadataOfPairs (Std.ExtTreeMap.mem_toList_iff_getElem?_eq_some.mpr hbuilt)
    rw [Std.ExtTreeMap.mem_toList_iff_getElem?_eq_some, hvalue] at hmem
    cases hmem

private theorem encodeMetadata_eq_ok {metadata : Metadata} :
    encodeMetadata metadata = .ok word ↔
      ∃ count encoded, encodeVarint metadata.toList.length = .ok count ∧
        metadata.toList.mapM encodePair = .ok encoded ∧ word = count ++ encoded.flatten := by
  simp only [encodeMetadata, bind_eq_ok, pure_eq_ok, exists_and_left, @eq_comm _ word]
  exact Iff.rfl

/-- The octets of an encoded list, pair by pair. -/
theorem length_flatten_mapM {pairs : List (PyStr × PyStr)} {encoded : List Bytes}
    (h : pairs.mapM encodePair = .ok encoded) :
    encoded.flatten.length =
      (pairs.map fun pair => ((encodePair pair).toOption.getD []).length).sum := by
  induction pairs generalizing encoded with
  | nil =>
    obtain rfl := pure_eq_ok.mp h
    rfl
  | cons pair rest ih =>
    obtain ⟨word, words, hword, hwords, rfl⟩ := mapM_cons_eq_ok.mp h
    rw [flatten_cons, length_append, ih hwords, map_cons, sum_cons, hword]
    rfl

/-- **Pairs without repetition among given ones take no more octets.** -/
theorem length_flatten_le {pairs kept : List (PyStr × PyStr)} {encoded encoded' : List Bytes}
    (hnodup : kept.Nodup) (hkept : kept ⊆ pairs) (h : pairs.mapM encodePair = .ok encoded)
    (h' : kept.mapM encodePair = .ok encoded') :
    encoded'.flatten.length ≤ encoded.flatten.length := by
  rw [length_flatten_mapM h, length_flatten_mapM h']
  obtain ⟨middle, hperm, hsub⟩ := subperm_of_subset hnodup hkept
  rw [← (hperm.map _).sum_eq]
  exact (hsub.map _).sum_le_sum fun _ _ => Nat.zero_le _

private theorem codes_encodeMetadata : Codes Metadata.WellFormed encodeMetadata metadataFormat where
  writes := by
    intro metadata h
    have hcount := h.count
    rw [← Std.ExtTreeMap.length_toList] at hcount
    obtain ⟨count, hcount, hformat⟩ := encodeVarint_writes hcount
    obtain ⟨encoded, hencoded, htimes⟩ := codes_encodePair.writes_list h.pairs
    refine ⟨count ++ encoded.flatten, encodeMetadata_eq_ok.mpr ⟨count, encoded, hcount, hencoded,
      rfl⟩, count, encoded.flatten, _, rfl, hformat, encoded.flatten, [], _, ?_, htimes, rfl, ?_⟩
    · rw [append_nil]
    · exact (metadataOfPairs_toList metadata).symm
  wellFormed := by
    rintro word _ ⟨_, _, count, -, hcount, _, _, pairs, -, htimes, -, rfl⟩
    refine ⟨?_, fun pair hpair => ?_⟩
    · -- There are no more keys than pairs.
      have hle : (metadataOfPairs pairs).size ≤ pairs.length := by
        rw [← Std.ExtTreeMap.length_toList]
        exact (subperm_of_subset (nodup_toList _) fun _ => mem_of_metadataOfPairs).length_le
      rw [Format.times_length htimes] at hle
      exact lt_of_le_of_lt hle (varintFormat_fits hcount)
    · exact codes_encodePair.wellFormed_list htimes pair (mem_of_metadataOfPairs hpair)
  shortest := by
    rintro word word' _ ⟨first, _, count, rfl, hcount, later, _, pairs, rfl, htimes, rfl, rfl⟩ hword
    obtain ⟨count', encoded', hcount', hencoded', rfl⟩ := encodeMetadata_eq_ok.mp hword
    have hsubset : (metadataOfPairs pairs).toList ⊆ pairs := fun _ => mem_of_metadataOfPairs
    have hnodup := nodup_toList (metadataOfPairs pairs)
    obtain ⟨encoded, hencoded, -⟩ :=
      codes_encodePair.writes_list (codes_encodePair.wellFormed_list htimes)
    have hfewer : (metadataOfPairs pairs).toList.length ≤ count := by
      rw [← Format.times_length htimes]
      exact (subperm_of_subset hnodup hsubset).length_le
    rw [length_append, length_append, append_nil]
    refine Nat.add_le_add (encodeVarint_le hfewer hcount hcount') ?_
    calc encoded'.flatten.length
        ≤ encoded.flatten.length := length_flatten_le hnodup hsubset hencoded hencoded'
      _ ≤ later.length := codes_encodePair.shortest_list htimes hencoded

/-! ### Transactions -/

/-- The encoding of an outpoint. -/
def encodeOutPoint (outpoint : OutPoint) : Except PyError Bytes := do
  let txid ← encodeHash outpoint.txid
  let index ← pack 4 outpoint.index
  return txid ++ index

private theorem codes_encodeOutPoint : Codes OutPoint.WellFormed encodeOutPoint outPointFormat where
  writes := by
    rintro ⟨txid, index⟩ ⟨⟨raw, hraw, rfl⟩, hindex⟩
    obtain ⟨n, rfl, hlt⟩ := hindex.exists_nat
    refine ⟨raw ++ leBytes 4 n, ?_, raw, n, hraw, hlt, rfl, rfl⟩
    exact bind_eq_ok.mpr ⟨raw, encodeHash_hex hraw, bind_eq_ok.mpr ⟨_, pack_natCast hlt, rfl⟩⟩
  wellFormed := by
    rintro word outpoint ⟨raw, index, hraw, hindex, -, rfl⟩
    exact ⟨⟨raw, hraw, rfl⟩, fitsField_natCast.mpr hindex⟩
  shortest := by
    rintro word word' outpoint ⟨raw, index, hraw, hindex, rfl, rfl⟩ hword
    obtain ⟨txid, htxid, hword⟩ := bind_eq_ok.mp hword
    obtain ⟨octets, hoctets, hword⟩ := bind_eq_ok.mp hword
    obtain rfl := pure_eq_ok.mp hword
    rw [encodeHash_hex hraw] at htxid
    rw [pack_natCast hindex] at hoctets
    rw [Except.ok.inj htxid, Except.ok.inj hoctets]

/-- The scheme of an input, written and read. -/
theorem encodeSigScheme_writes {version : ℕ} {scheme : Int}
    (h : if (version : Int) ≥ 2 then FitsField 1 scheme else scheme = 0) :
    ∃ (n : ℕ) (word : Bytes), scheme = n ∧ encodeSigScheme version scheme = .ok word ∧
      schemeFormat version word n := by
  unfold encodeSigScheme schemeFormat
  split_ifs at h with hversion
  · obtain ⟨n, rfl, hlt⟩ := h.exists_nat
    have hversion' : version ≥ 2 := by exact_mod_cast hversion
    refine ⟨n, [UInt8.ofNat n], rfl, ?_, ?_⟩
    · rw [if_pos hversion, if_neg (by omega)]
      rfl
    · rw [if_pos hversion']
      exact ⟨hlt, rfl⟩
  · subst h
    have hversion' : ¬ version ≥ 2 := by exact_mod_cast hversion
    refine ⟨0, [], rfl, ?_, ?_⟩
    · rw [if_neg hversion, if_neg (by decide)]
    · rw [if_neg hversion']
      exact ⟨rfl, rfl⟩

private theorem schemeFormat_encode {version : ℕ} (h : schemeFormat version word n) :
    (if (version : Int) ≥ 2 then FitsField 1 n else (n : Int) = 0) ∧
      encodeSigScheme version n = .ok word := by
  unfold schemeFormat at h
  unfold encodeSigScheme
  split_ifs at h with hversion
  · obtain ⟨hlt, rfl⟩ := h
    have hversion' : (version : Int) ≥ 2 := by exact_mod_cast hversion
    rw [if_pos hversion', if_pos hversion', if_neg (by omega)]
    exact ⟨fitsField_natCast.mpr hlt, rfl⟩
  · obtain ⟨rfl, rfl⟩ := h
    have hversion' : ¬ (version : Int) ≥ 2 := by exact_mod_cast hversion
    rw [if_neg hversion', if_neg hversion', if_neg (by decide)]
    exact ⟨rfl, rfl⟩

private theorem serializeInput_eq_ok {version : Int} {txInput : TxInput} :
    serializeInput version txInput = .ok word ↔
      ∃ outpoint scheme signature publicKey sequence,
        encodeOutPoint txInput.previousOutput = .ok outpoint ∧
        encodeSigScheme version txInput.sigSchemeId = .ok scheme ∧
        encodeBytes txInput.signature = .ok signature ∧
        encodeBytes txInput.publicKey = .ok publicKey ∧
        pack 4 txInput.sequence = .ok sequence ∧
        word = outpoint ++ (scheme ++ (signature ++ (publicKey ++ sequence))) := by
  have houtpoint : serializeInput version txInput = do
      let outpoint ← encodeOutPoint txInput.previousOutput
      let scheme ← encodeSigScheme version txInput.sigSchemeId
      let signature ← encodeBytes txInput.signature
      let publicKey ← encodeBytes txInput.publicKey
      let sequence ← pack 4 txInput.sequence
      return outpoint ++ scheme ++ signature ++ publicKey ++ sequence := by
    simp only [serializeInput, encodeOutPoint, bind_assoc, pure_bind]
  simp only [houtpoint, bind_eq_ok, pure_eq_ok, append_assoc, exists_and_left, @eq_comm _ word]

private theorem codes_serializeInput (version : ℕ) :
    Codes (TxInput.WellFormed version) (serializeInput version) (inputFormat version) where
  writes := by
    intro txInput h
    obtain ⟨outpoint, houtpoint, hformat1⟩ := codes_encodeOutPoint.writes h.previousOutput
    obtain ⟨n, scheme, hn, hscheme, hformat2⟩ := encodeSigScheme_writes h.sigSchemeId
    obtain ⟨signature, hsignature, hformat3⟩ := codes_encodeBytes.writes h.signature
    obtain ⟨publicKey, hpublicKey, hformat4⟩ := codes_encodeBytes.writes h.publicKey
    obtain ⟨m, sequence, hm, hsequence, hformat5⟩ := h.sequence.writes
    refine ⟨_, serializeInput_eq_ok.mpr ⟨outpoint, scheme, signature, publicKey, sequence,
      houtpoint, hscheme, hsignature, hpublicKey, hsequence, rfl⟩, ?_⟩
    refine ⟨outpoint, _, _, rfl, hformat1, scheme, _, n, rfl, hformat2, signature, _, _, rfl,
      hformat3, publicKey, _, _, rfl, hformat4, sequence, [], m, ?_, hformat5, rfl, ?_⟩
    · rw [append_nil]
    · rw [← hn, ← hm]
  wellFormed := by
    rintro word txInput ⟨_, _, outpoint, -, houtpoint, _, _, n, -, hscheme, _, _, signature, -,
      hsignature, _, _, publicKey, -, hpublicKey, _, _, m, -, hsequence, -, rfl⟩
    exact ⟨codes_encodeOutPoint.wellFormed houtpoint, (schemeFormat_encode hscheme).1,
      codes_encodeBytes.wellFormed hsignature, codes_encodeBytes.wellFormed hpublicKey,
      (fieldFormat_pack hsequence).1⟩
  shortest := by
    rintro word word' txInput ⟨u1, _, outpoint, rfl, houtpoint, u2, _, n, rfl, hscheme, u3, _,
      signature, rfl, hsignature, u4, _, publicKey, rfl, hpublicKey, u5, _, m, rfl, hsequence, rfl,
      rfl⟩ hword
    obtain ⟨w1, w2, w3, w4, w5, h1, h2, h3, h4, h5, rfl⟩ := serializeInput_eq_ok.mp hword
    have hle1 := codes_encodeOutPoint.shortest houtpoint h1
    have hle3 := codes_encodeBytes.shortest hsignature h3
    have hle4 := codes_encodeBytes.shortest hpublicKey h4
    obtain rfl := Except.ok.inj ((schemeFormat_encode hscheme).2.symm.trans h2)
    obtain rfl := Except.ok.inj ((fieldFormat_pack hsequence).2.symm.trans h5)
    simp only [length_append, length_nil]
    omega

private theorem serializeOutput_eq_ok {output : TxOutput} :
    serializeOutput output = .ok word ↔ ∃ value recipient, pack 8 output.value = .ok value ∧
      encodeString output.recipient = .ok recipient ∧ word = value ++ recipient := by
  simp only [serializeOutput, bind_eq_ok, pure_eq_ok, exists_and_left, @eq_comm _ word]

private theorem codes_serializeOutput : Codes TxOutput.WellFormed serializeOutput outputFormat where
  writes := by
    intro output h
    obtain ⟨n, value, hn, hvalue, hformat1⟩ := h.value.writes
    obtain ⟨recipient, hrecipient, hformat2⟩ := codes_encodeString.writes h.recipient
    refine ⟨_, serializeOutput_eq_ok.mpr ⟨value, recipient, hvalue, hrecipient, rfl⟩, ?_⟩
    refine ⟨value, _, n, rfl, hformat1, recipient, [], _, ?_, hformat2, rfl, ?_⟩
    · rw [append_nil]
    · rw [← hn]
  wellFormed := by
    rintro word output ⟨_, _, n, -, hvalue, _, _, recipient, -, hrecipient, -, rfl⟩
    exact ⟨(fieldFormat_pack hvalue).1, codes_encodeString.wellFormed hrecipient⟩
  shortest := by
    rintro word word' output ⟨u1, _, n, rfl, hvalue, u2, _, recipient, rfl, hrecipient, rfl, rfl⟩
      hword
    obtain ⟨w1, w2, h1, h2, rfl⟩ := serializeOutput_eq_ok.mp hword
    have hle := codes_encodeString.shortest hrecipient h2
    obtain rfl := Except.ok.inj ((fieldFormat_pack hvalue).2.symm.trans h1)
    simp only [length_append, length_nil]
    omega

private theorem serializeTransaction_eq_ok {tx : Transaction} :
    serializeTransaction tx = .ok word ↔
      ∃ version inputCount inputs outputCount outputs locktime metadata,
        pack 4 tx.version = .ok version ∧
        encodeVarint tx.inputs.length = .ok inputCount ∧
        tx.inputs.mapM (serializeInput tx.version) = .ok inputs ∧
        encodeVarint tx.outputs.length = .ok outputCount ∧
        tx.outputs.mapM serializeOutput = .ok outputs ∧
        pack 4 tx.locktime = .ok locktime ∧
        encodeMetadata tx.metadata = .ok metadata ∧
        word = version ++ (inputCount ++ (inputs.flatten ++ (outputCount ++ (outputs.flatten ++
          (locktime ++ metadata))))) := by
  simp only [serializeTransaction, bind_eq_ok, pure_eq_ok, append_assoc, exists_and_left,
    @eq_comm _ word]

/-- **Transactions.** -/
theorem codes_serializeTransaction :
    Codes Transaction.WellFormed serializeTransaction transactionFormat where
  writes := by
    intro tx h
    obtain ⟨n, version, hn, hversion, hformat1⟩ := h.version.writes
    obtain ⟨inputCount, hinputCount, hformat2⟩ := encodeVarint_writes h.inputCount
    -- The version comes first: it decides how the inputs are laid out.
    have hinputs := h.inputs
    rw [hn] at hinputs
    obtain ⟨inputs, hinputs, hformat3⟩ := (codes_serializeInput n).writes_list hinputs
    rw [← hn] at hinputs
    obtain ⟨outputCount, houtputCount, hformat4⟩ := encodeVarint_writes h.outputCount
    obtain ⟨outputs, houtputs, hformat5⟩ := codes_serializeOutput.writes_list h.outputs
    obtain ⟨m, locktime, hm, hlocktime, hformat6⟩ := h.locktime.writes
    obtain ⟨metadata, hmetadata, hformat7⟩ := codes_encodeMetadata.writes h.metadata
    refine ⟨_, serializeTransaction_eq_ok.mpr ⟨version, inputCount, inputs, outputCount, outputs,
      locktime, metadata, hversion, hinputCount, hinputs, houtputCount, houtputs, hlocktime,
      hmetadata, rfl⟩, ?_⟩
    refine ⟨version, _, n, rfl, hformat1, inputCount, _, _, rfl, hformat2, inputs.flatten, _, _,
      rfl, hformat3, outputCount, _, _, rfl, hformat4, outputs.flatten, _, _, rfl, hformat5,
      locktime, _, m, rfl, hformat6, metadata, [], _, ?_, hformat7, rfl, ?_⟩
    · rw [append_nil]
    · rw [← hn, ← hm]
  wellFormed := by
    rintro word tx ⟨_, _, n, -, hversion, _, _, inputCount, -, hinputCount, _, _, inputs, -,
      hinputs, _, _, outputCount, -, houtputCount, _, _, outputs, -, houtputs, _, _, m, -,
      hlocktime, _, _, metadata, -, hmetadata, -, rfl⟩
    refine ⟨(fieldFormat_pack hversion).1, ?_, (codes_serializeInput n).wellFormed_list hinputs, ?_,
      codes_serializeOutput.wellFormed_list houtputs, (fieldFormat_pack hlocktime).1,
      codes_encodeMetadata.wellFormed hmetadata⟩
    · rw [Format.times_length hinputs]
      exact varintFormat_fits hinputCount
    · rw [Format.times_length houtputs]
      exact varintFormat_fits houtputCount
  shortest := by
    rintro word word' tx ⟨u1, _, n, rfl, hversion, u2, _, inputCount, rfl, hinputCount, u3,
      _, inputs, rfl, hinputs, u4, _, outputCount, rfl, houtputCount, u5, _, outputs, rfl, houtputs,
      u6, _, m, rfl, hlocktime, u7, _, metadata, rfl, hmetadata, rfl, rfl⟩ hword
    obtain ⟨w1, w2, w3, w4, w5, w6, w7, h1, h2, h3, h4, h5, h6, h7, rfl⟩ :=
      serializeTransaction_eq_ok.mp hword
    obtain rfl := Except.ok.inj ((fieldFormat_pack hversion).2.symm.trans h1)
    obtain rfl := Except.ok.inj ((fieldFormat_pack hlocktime).2.symm.trans h6)
    -- Fixed fields are equally long; counts and texts are what the serialiser keeps short.
    have hle2 := encodeVarint_le (Format.times_length hinputs).le hinputCount h2
    have hle3 := (codes_serializeInput n).shortest_list hinputs h3
    have hle4 := encodeVarint_le (Format.times_length houtputs).le houtputCount h4
    have hle5 := codes_serializeOutput.shortest_list houtputs h5
    have hle7 := codes_encodeMetadata.shortest hmetadata h7
    simp only [length_append, length_nil]
    omega

/-! ### Headers and blocks -/

/-- **Headers.** The format of a header is its serialisation. -/
theorem codes_serializeBlockHeader :
    Codes BlockHeader.WellFormed serializeBlockHeader headerFormat where
  writes := by
    intro header h
    obtain ⟨raw, hraw, hprevious⟩ := h.previousBlockHash
    obtain ⟨raw', hraw', hroot⟩ := h.merkleRoot
    obtain ⟨_, version, -, hversion, -⟩ := h.version.writes
    obtain ⟨_, timestamp, -, htimestamp, -⟩ := h.timestamp.writes
    obtain ⟨_, bits, -, hbits, -⟩ := h.bits.writes
    obtain ⟨_, nonce, -, hnonce, -⟩ := h.nonce.writes
    have hok : ∃ word, serializeBlockHeader header = .ok word := by
      rw [serializeBlockHeader, hversion, hprevious, encodeHash_hex hraw, hroot,
        encodeHash_hex hraw', htimestamp, hbits, hnonce]
      exact ⟨_, rfl⟩
    obtain ⟨word, hword⟩ := hok
    exact ⟨word, hword, ⟨raw, hprevious⟩, ⟨raw', hroot⟩, hword⟩
  wellFormed := by
    rintro word header ⟨⟨raw, hprevious⟩, ⟨raw', hroot⟩, h⟩
    have hpack : ∀ {v : Int} {octets : Bytes}, pack 4 v = .ok octets → FitsField 4 v := by
      intro v octets hv
      obtain ⟨hpos, hlt, -⟩ := pack_ok hv
      rw [← Int.toNat_of_nonneg hpos]
      exact fitsField_natCast.mpr hlt
    simp only [serializeBlockHeader, bind_eq_ok] at h
    obtain ⟨_, hversion, _, hprevious', _, hroot', _, htimestamp, _, hbits, _, hnonce, -⟩ := h
    rw [hprevious] at hprevious'
    rw [hroot] at hroot'
    exact ⟨hpack hversion, ⟨raw, (of_encodeHash_hex hprevious').1, hprevious⟩,
      ⟨raw', (of_encodeHash_hex hroot').1, hroot⟩, hpack htimestamp, hpack hbits, hpack hnonce⟩
  shortest := by
    rintro word word' header ⟨-, -, h⟩ hword
    -- No field of a header varies in length.
    obtain rfl := ok_unique h hword
    exact le_rfl

private theorem serializeBlock_eq_ok {block : Block} :
    serializeBlock block = .ok word ↔ ∃ header count txs,
      serializeBlockHeader block.header = .ok header ∧
      encodeVarint block.transactions.length = .ok count ∧
      block.transactions.mapM serializeTransaction = .ok txs ∧
      word = header ++ (count ++ txs.flatten) := by
  simp only [serializeBlock, bind_eq_ok, pure_eq_ok, append_assoc, exists_and_left, @eq_comm _ word]

/-- **Blocks.** -/
theorem codes_serializeBlock : Codes Block.WellFormed serializeBlock blockFormat where
  writes := by
    intro block h
    obtain ⟨header, hheader, hformat1⟩ := codes_serializeBlockHeader.writes h.header
    obtain ⟨count, hcount, hformat2⟩ := encodeVarint_writes h.count
    obtain ⟨txs, htransactions, hformat3⟩ :=
      codes_serializeTransaction.writes_list h.transactions
    refine ⟨_, serializeBlock_eq_ok.mpr ⟨header, count, txs, hheader, hcount,
      htransactions, rfl⟩, ?_⟩
    refine ⟨header, _, _, rfl, hformat1, count, _, _, rfl, hformat2, txs.flatten, [],
      _, ?_, hformat3, rfl, rfl⟩
    rw [append_nil]
  wellFormed := by
    rintro word block ⟨_, _, header, -, hheader, _, _, count, -, hcount, _, _, txs, -,
      htransactions, -, rfl⟩
    refine ⟨codes_serializeBlockHeader.wellFormed hheader, ?_,
      codes_serializeTransaction.wellFormed_list htransactions⟩
    rw [Format.times_length htransactions]
    exact varintFormat_fits hcount
  shortest := by
    rintro word word' block ⟨u1, _, header, rfl, hheader, u2, _, count, rfl, hcount, u3, _,
      txs, rfl, htransactions, rfl, rfl⟩ hword
    obtain ⟨w1, w2, w3, h1, h2, h3, rfl⟩ := serializeBlock_eq_ok.mp hword
    have hle1 := codes_serializeBlockHeader.shortest hheader h1
    have hle2 := encodeVarint_le (Format.times_length htransactions).le hcount h2
    have hle3 := codes_serializeTransaction.shortest_list htransactions h3
    simp only [length_append, length_nil]
    omega

/-! ### Round trips -/

/-- A serialiser and a deserialiser fit, in both directions. -/
structure RoundTrips {α : Type} (WellFormed : α → Prop) (serialize : α → Except PyError Bytes)
    (deserialize : Decoder PyError UInt8 α) : Prop where
  /-- What is serialised is read back, whatever follows it. -/
  deserialize_serialize : ∀ object, WellFormed object →
    ∃ octets, serialize object = .ok octets ∧
      ∀ rest, deserialize (octets ++ rest) 0 = .ok (object, octets.length)
  /-- What is read from all octets of a string is serialised in no more octets, and these are read
  as the same object. -/
  serialize_deserialize : ∀ octets object, deserialize octets 0 = .ok (object, octets.length) →
    ∃ canonical, serialize object = .ok canonical ∧ canonical.length ≤ octets.length ∧
      deserialize canonical 0 = .ok (object, canonical.length)

private theorem RoundTrips.of_codes {α : Type} {WellFormed : α → Prop}
    {serialize : α → Except PyError Bytes} {deserialize : Decoder PyError UInt8 α}
    {format : Format UInt8 α} (hreads : Reads deserialize format)
    (hcodes : Codes WellFormed serialize format) : RoundTrips WellFormed serialize deserialize where
  deserialize_serialize _ h := hcodes.decode_encode hreads h
  serialize_deserialize _ _ h := hcodes.encode_decode hreads h

/-- **Round trips of transactions, headers and blocks.** -/
theorem codec_round_trip :
    RoundTrips Transaction.WellFormed serializeTransaction deserializeTransaction ∧
      RoundTrips BlockHeader.WellFormed serializeBlockHeader deserializeBlockHeader ∧
      RoundTrips Block.WellFormed serializeBlock deserializeBlock :=
  ⟨.of_codes reads_deserializeTransaction codes_serializeTransaction,
    .of_codes reads_deserializeBlockHeader codes_serializeBlockHeader,
    .of_codes reads_deserializeBlock codes_serializeBlock⟩

end Chipcoin

import Chipcoin.Node.Chain

/-!
# Post-quantum outputs and their activation

Outputs to `CHCQ` addresses become valid at a height of their own. The validator checks the outputs
of a transaction in `validate_transaction_stateful`, which a block runs for every transaction but
its first. The coinbase passes through `_validate_coinbase_distribution` alone, and this looks at
amounts and at the recipients of node rewards, never at the form of an address.

* `BlockChecks.activated`: the transactions after the coinbase pay activated recipients only.
* `pqOutputs_activated`: if the coinbases do so too, every unspent output of the chain does.
* `SampleActivation.coinbase_unactivated`: a coinbase to a text that is no address, before the
  activation, is accepted.
-/

namespace Chipcoin

open Checked

variable {ctx : ValidationContext}

section

variable [Platform]

/-! ### Activated outputs -/

/-- An output that pays a `CHCQ` recipient only if the recipient is a well-formed address and the
height is one where such addresses are active. -/
def Activated (network : PyStr) (params : ConsensusParams) (height : ℕ) (output : TxOutput) :
    Prop :=
  pqAddressPrefix.isPrefixOf output.recipient →
    pqSupportIsActive network height params ∧
      ∃ info, parseAddress output.recipient = .ok info ∧ info.kind = .pq

private theorem parseAddress_kind {address : PyStr} {info : AddressInfo}
    (hquantum : pqAddressPrefix.isPrefixOf address) (h : parseAddress address = .ok info) :
    info.kind = .pq := by
  rw [parseAddress, if_pos hquantum] at h
  simp only [bind_eq_ok, pure_eq_ok] at h
  obtain ⟨_, -, _, -, _, -, _, -, rfl⟩ := h
  rfl

private theorem validateTransactionOutputsForActivation_ok {tx : Transaction}
    (h : validateTransactionOutputsForActivation tx ctx = .ok ()) :
    ∀ output ∈ tx.outputs,
      Activated ctx.network ctx.params ctx.height output := by
  intro output hmem hquantum
  have hone := forM_eq_ok.mp h output hmem
  rw [if_pos hquantum] at hone
  obtain ⟨info, hinfo, hactive⟩ := bind_eq_ok.mp hone
  have hparsed := rethrow_eq_ok.mp hinfo
  have hkind := parseAddress_kind hquantum hparsed
  refine ⟨?_, info, hparsed, hkind⟩
  by_contra hinactive
  exact raiseIf_eq_ok.mp hactive ⟨hkind, hinactive⟩

/-- Every transaction after the coinbase is validated in a context of its own, which differs from
that of the block in what is staged. -/
theorem validated_of_staged {txs : List Transaction} {stage stage' : Stage}
    (h : txs.foldlM (stageTransaction ctx) stage = .ok stage') :
    ∀ tx ∈ txs, ∃ staged fee,
      validateTransactionStateful tx (stagedContext ctx staged) = .ok fee := by
  intro tx hmem
  obtain ⟨before, after, rfl⟩ := List.append_of_mem hmem
  obtain ⟨reached, -, hafter⟩ := foldlM_append_eq_ok.mp h
  obtain ⟨next, hround, -⟩ := foldlM_cons_eq_ok.mp hafter
  obtain ⟨staged, -, hround⟩ := bind_eq_ok.mp hround
  obtain ⟨fee, hfee, -⟩ := bind_eq_ok.mp hround
  exact ⟨staged, fee, hfee⟩

/-- **Payments and special transactions** pay activated recipients only. -/
theorem BlockChecks.activated {block : Block} {coinbase : Transaction} {rest : List Transaction}
    {stage : Stage} (checks : BlockChecks block ctx coinbase rest stage) :
    ∀ tx ∈ rest, ∀ output ∈ tx.outputs,
      Activated ctx.network ctx.params ctx.height output := by
  intro tx hmem
  obtain ⟨staged, fee, hvalid⟩ := validated_of_staged checks.staged tx hmem
  have hplain := checks.coinbase_only tx hmem
  exact validateTransactionOutputsForActivation_ok (validateTransactionStateful_ok hplain hvalid).1

/-- The block is validated for a network. -/
def OnNetwork (network : PyStr) : BlockCondition := fun _ ctx _ => ctx.network = network

instance (network : PyStr) (state : ReplayState) (ctx : ValidationContext) (block : Block) :
    Decidable (OnNetwork network state ctx block) :=
  inferInstanceAs (Decidable (ctx.network = network))

/-- The block is validated for a network, and its coinbase pays activated recipients only. -/
structure CoinbaseActivated (network : PyStr) (state : ReplayState) (ctx : ValidationContext)
    (block : Block) : Prop where
  network_eq : OnNetwork network state ctx block
  outputs : ∀ coinbase, block.transactions.head? = some coinbase →
    ∀ output ∈ coinbase.outputs, Activated network ctx.params ctx.height output

/-- **No post-quantum output before its activation.** In a chain of one network whose coinbases pay
activated recipients, every unspent output to a `CHCQ` recipient was created at a height where such
outputs are active, and its recipient is a well-formed address. -/
theorem pqOutputs_activated {network : PyStr} {params : ConsensusParams} {blocks : List Block}
    {state : ReplayState} (chain : AcceptedBlocks params (CoinbaseActivated network) blocks state)
    {outpoint : OutPoint} {entry : UtxoEntry} (hentry : state.utxos[outpoint]? = some entry)
    (hquantum : pqAddressPrefix.isPrefixOf entry.output.recipient) :
    pqSupportIsActive network entry.height params ∧
      ∃ info, parseAddress entry.output.recipient = .ok info ∧ info.kind = .pq := by
  -- By induction on the chain: a block keeps an output or creates it at its own height.
  suffices hall : Activated network params entry.height entry.output from hall hquantum
  induction chain with
  | empty => simp [ReplayState.empty] at hentry
  | @extend blocks state state' ctx block fees _ observes accepted meets connected ih =>
    have happly := ReplayState.connectBlock_utxos connected
    rcases UtxoSet.lawful.origin_of_present happly hentry with hbefore | ⟨hheight, created⟩
    · exact ih hbefore
    · obtain ⟨tx, hmem, houtput⟩ := created
      obtain ⟨coinbase, rest, stage, checks, -⟩ := validateBlock_ok accepted
      rw [hheight]
      rw [checks.transactions_eq, List.mem_cons] at hmem
      have hactivated : Activated network ctx.params ctx.height entry.output := by
        rcases hmem with rfl | hmem
        · exact meets.outputs tx (by rw [checks.transactions_eq, List.head?_cons]) _ houtput
        · have hchecked := checks.activated tx hmem _ houtput
          rwa [meets.network_eq] at hchecked
      rwa [observes.params_eq, observes.height_eq] at hactivated

end

namespace SampleActivation

local instance platform : Platform := samplePlatform []

/-- A first block whose coinbase pays one recipient. -/
def paying (recipient : PyStr) : Block :=
  sampleBlock zeroHash 0 0x207FFFFF
    [sampleCoinbase 0 [{ value := 50, recipient := recipient }]]

def afterPaying (recipient : PyStr) : ReplayState := .after .empty 0 [paying recipient]

/-- The outpoint of that coinbase. -/
def reward (recipient : PyStr) : OutPoint :=
  ⟨(sampleCoinbase 0 [{ value := 50, recipient := recipient }]).txid.toOption.getD [], 0⟩

/-- A well-formed post-quantum address. -/
def quantumAddress : PyStr :=
  pqAddressPrefix ++ base58checkEncode (0x50 :: 10 :: List.replicate 32 0)

/-- The first block on mainnet and what its output is, evaluated. -/
theorem payout_evaluated :
    ReplayState.empty.takes sampleParams (str "mainnet") 0 zeroHash ∅
        (paying quantumAddress) ∧
      (afterPaying quantumAddress).utxos[reward quantumAddress]? =
        some ⟨{ value := 50, recipient := quantumAddress }, 0, true⟩ ∧
      pqAddressPrefix.isPrefixOf quantumAddress ∧
      pqSupportIsActive (str "mainnet") 0 sampleParams ∧
      parseAddress quantumAddress = .ok ⟨.pq, 10, List.replicate 32 0⟩ := by
  decide +kernel

/-- On mainnet post-quantum outputs are active from the first block on. -/
theorem pqOutputs_activated_mainnet :
    ∃ entry, (afterPaying quantumAddress).utxos[reward quantumAddress]? = some entry ∧
      pqAddressPrefix.isPrefixOf entry.output.recipient ∧
      pqSupportIsActive (str "mainnet") entry.height sampleParams ∧
      ∃ info, parseAddress entry.output.recipient = .ok info ∧ info.kind = .pq := by
  obtain ⟨htaken, hentry, hquantum, hactive, hparse⟩ := payout_evaluated
  have meets : ∀ coinbase, (paying quantumAddress).transactions.head? = some coinbase →
      ∀ output ∈ coinbase.outputs, Activated (str "mainnet") sampleParams 0 output := by
    intro coinbase hhead output hmem _
    obtain rfl : coinbase = sampleCoinbase 0 [{ value := 50, recipient := quantumAddress }] := by
      simpa [paying, sampleBlock] using hhead.symm
    obtain rfl : output = { value := 50, recipient := quantumAddress } := by
      simpa [sampleCoinbase] using hmem
    exact ⟨hactive, ⟨.pq, 10, List.replicate 32 0⟩, hparse, rfl⟩
  have chain : AcceptedBlocks sampleParams (CoinbaseActivated (str "mainnet"))
      [paying quantumAddress] (afterPaying quantumAddress) :=
    AcceptedBlocks.take .empty ⟨rfl, meets⟩ htaken
  exact ⟨_, hentry, hquantum, pqOutputs_activated chain hentry hquantum⟩

/-- **A coinbase is not checked.** On testnet post-quantum outputs are not active in the first
block, and `CHCQ` alone is no address; the block that pays it is accepted. -/
theorem coinbase_unactivated :
    AcceptedBlocks sampleParams (OnNetwork (str "testnet")) [paying (str "CHCQ")]
        (afterPaying (str "CHCQ")) ∧
      (afterPaying (str "CHCQ")).utxos[reward (str "CHCQ")]? =
        some ⟨{ value := 50, recipient := str "CHCQ" }, 0, true⟩ ∧
      pqSupportIsActive (str "testnet") 0 sampleParams = false ∧
      isValidAddress (str "CHCQ") = false := by
  have hreplayed : replays (OnNetwork (str "testnet")) sampleParams (str "testnet") ∅
      [paying (str "CHCQ")] := by decide +kernel
  exact ⟨.of_replays hreplayed, by decide +kernel⟩

end SampleActivation

end Chipcoin

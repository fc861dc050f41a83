import SkaleConsensus.Block.Binding
import SkaleConsensus.Block.Serialize
import SkaleConsensus.Proposal.Server

/-! The proposals that a node holds, and the bytes it serves for them.

A proposal was pushed to the node, downloaded by it or is part of a committed block. A
downloaded one keeps the bytes it was read from, and `serializeProposal` returns them;
another is written anew. The correct nodes share the keys and the libraries they read
with. -/
namespace SkaleConsensus.Finalize
open Library Block Crypto Proposal

/-- A proposal and its `cachedSerializedProposal`, as far as it is not what
`serializeProposal` itself has put there. -/
structure Held (r : BlockReader) where
  proposal : BlockProposal
  cachedSerializedProposal : Option Bytes
  verified : Verified r proposal
  read : ∀ bytes ∈ cachedSerializedProposal, r.deserializeProposal bytes true = .ok proposal

namespace Held
variable {r : BlockReader}

/-! ### How a node comes to hold a proposal -/

/-- A pushed proposal, once `finishRequest` has verified it. -/
def pushed {n : Node} {h : BlockProposalRequestHeader} {transactions : List Transaction}
    {p : BlockProposal} (hreceived : receivedBlockProposal n h transactions = .ok p)
    (hverify : p.verifyProposalECDSA n.cm h.hash h.signature = .ok ()) : Held n.toBlockReader where
  proposal := p
  cachedSerializedProposal := none
  verified := by
    obtain ⟨nodeID, hmake⟩ := after_bind hreceived
    have hsignature : p.signature = h.signature := by
      rw [BlockProposal.of_make_eq_ok hmake]
      rfl
    rw [← hsignature] at hverify
    exact verified_of_verifyProposalECDSA hverify
  read := nofun

/-- The block that is committed for a proposal: `makeFromProposal` copies no bytes. -/
def committed (x : Held r) : Held r where
  proposal := x.proposal
  cachedSerializedProposal := none
  verified := x.verified
  read := nofun

/-! ### The bytes -/

variable (dump : Json → Bytes)

/-- `BlockProposal::serializeProposal`. -/
def serializeProposal (x : Held r) : Except String Bytes :=
  match x.cachedSerializedProposal with
  | some bytes => pure bytes
  | none => x.proposal.serializeProposal r.cm.blake3 dump

/-- The bytes that a node keeps, if they are not those that the code writes. -/
def departure (x : Held r) : Option Bytes :=
  if x.cachedSerializedProposal = some (x.proposal.bytes r.cm.blake3 dump) then none
  else x.cachedSerializedProposal

/-- What the node serves. -/
def kept (x : Held r) : Bytes := (x.departure dump).getD (x.proposal.bytes r.cm.blake3 dump)

/-- One signature, and bytes that depart from what the code writes in the same way, or
not at all. -/
def Alike (x y : Held r) : Prop :=
  x.proposal.signature = y.proposal.signature ∧ x.departure dump = y.departure dump

variable {dump} {x y : Held r}

theorem serializeProposal_eq (h : Legible r dump x.proposal) :
    x.serializeProposal dump = .ok (x.kept dump) := by
  unfold serializeProposal kept departure
  cases hcached : x.cachedSerializedProposal with
  | none => exact h.serializeProposal_eq
  | some bytes =>
    dsimp only
    split_ifs with hsame
    · rw [Option.some.inj hsame]
      rfl
    · rfl

/-- What is served has a header and a list of transactions, written or read. -/
theorem ends_of_serializeProposal {bytes : Bytes} (h : x.serializeProposal dump = .ok bytes) :
    bytes[8]? = some 123 ∧ bytes.getLast? = some 62 := by
  unfold serializeProposal at h
  split at h
  · rename_i cached hcached
    cases h
    obtain ⟨hbrace, hlast, -⟩ := of_deserializeProposal (x.read _ hcached)
    exact ⟨hbrace, hlast⟩
  · exact Block.ends_of_serializeProposal h

/-- What a node serves is read as the proposal it holds. -/
theorem deserializeProposal_kept (h : Legible r dump x.proposal) (hdigest : Hasher r.cm.blake3) :
    r.deserializeProposal (x.kept dump) true = .ok x.proposal := by
  have hwritten := h.deserializeProposal_bytes hdigest x.verified
  unfold kept departure
  split_ifs
  · exact hwritten
  · cases hcached : x.cachedSerializedProposal with
    | none => exact hwritten
    | some bytes => exact x.read bytes hcached

theorem departure_eq (x : Held r) : x.departure dump =
    if x.kept dump = x.proposal.bytes r.cm.blake3 dump then none else some (x.kept dump) := by
  unfold kept departure
  split_ifs with hsame hwritten hwritten
  · rfl
  · exact absurd rfl hwritten
  · cases hcached : x.cachedSerializedProposal with
    | none => rfl
    | some bytes =>
      rw [hcached] at hsame hwritten
      exact absurd (congrArg some hwritten) hsame
  · cases hcached : x.cachedSerializedProposal with
    | none =>
      rw [hcached] at hwritten
      exact absurd rfl hwritten
    | some bytes => rfl

/-- Nodes that hold proposals with one hash serve the same bytes exactly when the
proposals are alike. -/
theorem kept_eq_iff_alike (hx : Legible r dump x.proposal) (hy : Legible r dump y.proposal)
    (hdigest : Hasher r.cm.blake3)
    (hfree : x.proposal.CollisionFree r.cm.blake3 y.proposal.toProposalFields)
    (hhash : x.proposal.hash r.cm.blake3 = y.proposal.hash r.cm.blake3) :
    x.kept dump = y.kept dump ↔ Alike dump x y := by
  constructor
  · intro hkept
    have hsame : x.proposal = y.proposal := by
      have hread := deserializeProposal_kept hx hdigest
      rw [hkept, deserializeProposal_kept hy hdigest] at hread
      exact (Except.ok.inj hread).symm
    refine ⟨congrArg (·.signature) hsame, ?_⟩
    rw [departure_eq, departure_eq, hkept, hsame]
  · rintro ⟨hsignature, hdeparture⟩
    have hsame := BlockProposal.eq_of_hash hdigest hfree hhash hsignature
    unfold kept
    rw [hdeparture, hsame]

end Held

end SkaleConsensus.Finalize

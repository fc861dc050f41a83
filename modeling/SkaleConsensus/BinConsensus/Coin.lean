import SkaleConsensus.BinConsensus.Instance

/-! The shares of a coin.

`calculateBLSRandom` goes over the AUX votes for the binary values of a round and
adds their shares, until the BLS library has enough. What it collects is named here,
apart from the check that it is enough. -/
namespace SkaleConsensus.BinConsensus

/-- The AUX votes for a truth value, if it is binary. -/
def BinConsensusInstance.verifiedVotes (s : BinConsensusInstance) (b : Bool) (r : ℕ) :
    List (SchainIndex × Option SigShare) :=
  if s.hasValue b r then (s.auxVotes b r).entries else []

/-- The shares that `calculateBLSRandom` has when it checks that they are enough. -/
def collectShares (c : Schain) (s : BinConsensusInstance) (r : ℕ) :
    Except String (List SigShare) := do
  let shares ← addShares c [] (s.verifiedVotes true r)
  addShares c shares (s.verifiedVotes false r)

variable {c : Schain} {s : BinConsensusInstance} {r : ℕ} {e : String}

theorem calculateBLSRandom_eq :
    calculateBLSRandom c s r = collectShares c s r >>= fun shares =>
      if c.isEnough shares then Except.ok (c.mergeSignatureGetRandom shares)
      else Except.error "State check failed::shares->isEnough()" := by
  have htrue : s.auxVotes true r = s.auxTrueVotes r := rfl
  have hfalse : s.auxVotes false r = s.auxFalseVotes r := rfl
  have hskip : ∀ shares, addShares c shares [] = .ok shares := fun _ => rfl
  unfold calculateBLSRandom collectShares BinConsensusInstance.verifiedVotes
  rw [htrue, hfalse]
  cases s.hasValue true r <;> cases s.hasValue false r <;>
    simp only [hskip, bind_assoc, if_true, if_false, Bool.false_eq_true]

theorem addShares_error {shares : List SigShare} {votes : List (SchainIndex × Option SigShare)}
    (h : addShares c shares votes = .error e) :
    e = "State check failed::item.second" := by
  induction votes generalizing shares with
  | nil => cases h
  | cons vote rest ih =>
    obtain ⟨i, share⟩ := vote
    cases share with
    | none =>
      cases h
      rfl
    | some share =>
      rw [addShares] at h
      split_ifs at h
      exact ih h

theorem collectShares_error (h : collectShares c s r = .error e) :
    e = "State check failed::item.second" := by
  unfold collectShares at h
  cases htrue : addShares c [] (s.verifiedVotes true r) with
  | error e' =>
    rw [htrue] at h
    cases h
    exact addShares_error htrue
  | ok shares =>
    rw [htrue] at h
    exact addShares_error h

/-- A random number is not drawn because a vote has no share, or because the shares are not
enough. -/
theorem roundRandom_error (h : roundRandom c s r = .error e) :
    e = "State check failed::item.second" ∨ e = "State check failed::shares->isEnough()" := by
  unfold roundRandom at h
  split_ifs at h
  rw [calculateBLSRandom_eq] at h
  cases hcollect : collectShares c s r with
  | error e' =>
    rw [hcollect] at h
    cases h
    exact .inl (collectShares_error hcollect)
  | ok shares =>
    rw [hcollect] at h
    change (if c.isEnough shares = true then Except.ok (c.mergeSignatureGetRandom shares)
      else Except.error "State check failed::shares->isEnough()") = .error e at h
    split_ifs at h
    cases h
    exact .inr rfl

end SkaleConsensus.BinConsensus

import Mathlib.Data.Nat.Find
import Mathlib.Algebra.Order.Group.Nat

/-! Randomized agreement by rounds with a common coin.

The protocols of this family run in rounds. A participant enters a round with an
estimate, accepts binary values backed by estimates, and either decides the coin
when one value alone has support, or carries a value to the next round. What
they guarantee follows from a handful of laws about what the correct participants
did, whoever else took part and however messages were counted. The laws are the
fields of `Lawful`; `agreement` adds that support and coin are unique in a round. -/
namespace SkaleConsensus.Library

/-- What the participants of a run did, round by round. -/
structure CoinRounds (ι : Type*) where
  /-- `i` entered round `r` with the estimate `b`. -/
  estimate : ι → ℕ → Bool → Prop
  /-- `i` accepted `b` as a binary value of round `r`. -/
  binary : ι → ℕ → Bool → Prop
  /-- `i` saw a quorum for the binary value `b` in round `r`. -/
  supported : ι → ℕ → Bool → Prop
  /-- `i` saw the coin of round `r` come up as `b`. -/
  coin : ι → ℕ → Bool → Prop
  /-- `i` decided `b` in round `r`. -/
  decision : ι → ℕ → Bool → Prop

namespace CoinRounds
variable {ι : Type*}

structure Lawful (P : CoinRounds ι) : Prop where
  grounded : ∀ {i r b}, P.binary i r b → ∃ j, P.estimate j r b
  binary_of_supported : ∀ {i r b}, P.supported i r b → P.binary i r b
  next : ∀ {i r b}, P.estimate i (r + 1) b →
    (P.coin i r b ∧ ∀ b', P.binary i r b') ∨ P.supported i r b ∨ ∃ r' ≤ r, P.decision i r' b
  coin_of_decision : ∀ {i r b}, P.decision i r b → P.coin i r b
  supported_of_decision : ∀ {i r b}, P.decision i r b → P.supported i r b

/-- No two participants see different coins, or support for different values. -/
structure Unique (P : CoinRounds ι) : Prop where
  coin : ∀ {i j r b b'}, P.coin i r b → P.coin j r b' → b = b'
  supported : ∀ {i j r b b'}, P.supported i r b → P.supported j r b' → b = b'

variable {P : CoinRounds ι}

namespace Lawful

variable {b b' : Bool} {r r' : ℕ} {i j : ι}

theorem binary_of_decision (h : P.Lawful) (hd : P.decision i r b) :
    P.binary i r b :=
  h.binary_of_supported (h.supported_of_decision hd)

/-- An estimate was a binary value of an earlier round. -/
theorem binary_of_next (h : P.Lawful) (he : P.estimate i (r + 1) b) :
    ∃ r' ≤ r, P.binary i r' b := by
  rcases h.next he with ⟨-, hboth⟩ | hs | ⟨r', hle, hd⟩
  · exact ⟨r, le_rfl, hboth b⟩
  · exact ⟨r, le_rfl, h.binary_of_supported hs⟩
  · exact ⟨r', hle, h.binary_of_decision hd⟩

/-- Validity: no value comes from nowhere. -/
theorem validity (h : P.Lawful) (hb : P.binary i r b) :
    ∃ j, P.estimate j 0 b := by
  induction r using Nat.strong_induction_on generalizing i with
  | _ r ih =>
    obtain ⟨j, hj⟩ := h.grounded hb
    cases r with
    | zero => exact ⟨j, hj⟩
    | succ r =>
      obtain ⟨r', hle, hb'⟩ := h.binary_of_next hj
      exact ih r' (Nat.lt_succ_of_le hle) hb'

theorem estimate_of_first_decision (h : P.Lawful) (hu : P.Unique) (hd : P.decision i r b)
    (hfirst : ∀ j r₀ b₀, P.decision j r₀ b₀ → r ≤ r₀) (hlt : r < r') (he : P.estimate j r' b') :
    b' = b := by
  induction r' using Nat.strong_induction_on generalizing j b' with
  | _ r' ih =>
    obtain ⟨q, rfl⟩ : ∃ q, r' = q + 1 := ⟨r' - 1, by omega⟩
    -- a binary value of a later round is the estimate somebody entered it with
    have hbinary : ∀ k q' c, r < q' → q' ≤ q → P.binary k q' c → c = b := by
      intro k q' c hq hle hc
      obtain ⟨l, hl⟩ := h.grounded hc
      exact ih q' (by omega) hq hl
    rcases Nat.lt_or_ge r q with hq | hq
    · rcases h.next he with ⟨-, hboth⟩ | hs | ⟨q', hle, hd'⟩
      · exact hbinary j q b' hq le_rfl (hboth b')
      · exact hbinary j q b' hq le_rfl (h.binary_of_supported hs)
      · rcases Nat.lt_or_ge r q' with hq' | hq'
        · exact hbinary j q' b' hq' hle (h.binary_of_decision hd')
        · obtain rfl : q' = r := le_antisymm hq' (hfirst j q' b' hd')
          exact hu.coin (h.coin_of_decision hd') (h.coin_of_decision hd)
    · obtain rfl : q = r := by omega
      rcases h.next he with ⟨hcoin, -⟩ | hs | ⟨q', hle, hd'⟩
      · exact hu.coin hcoin (h.coin_of_decision hd)
      · exact hu.supported hs (h.supported_of_decision hd)
      · obtain rfl : q' = q := le_antisymm hle (hfirst j q' b' hd')
        exact hu.coin (h.coin_of_decision hd') (h.coin_of_decision hd)

theorem eq_first_decision (h : P.Lawful) (hu : P.Unique) (hd : P.decision i r b)
    (hfirst : ∀ j r₀ b₀, P.decision j r₀ b₀ → r ≤ r₀) (hd' : P.decision j r' b') : b' = b := by
  rcases (hfirst j r' b' hd').eq_or_lt with rfl | hlt
  · exact hu.coin (h.coin_of_decision hd') (h.coin_of_decision hd)
  · obtain ⟨k, hk⟩ := h.grounded (h.binary_of_decision hd')
    exact h.estimate_of_first_decision hu hd hfirst hlt hk

theorem exists_first_decision (hd : P.decision i r b) :
    ∃ i₀ r₀ b₀, P.decision i₀ r₀ b₀ ∧ ∀ j r' b', P.decision j r' b' → r₀ ≤ r' := by
  classical
  have hsome : ∃ r, ∃ i b, P.decision i r b := ⟨r, i, b, hd⟩
  obtain ⟨i₀, b₀, h₀⟩ := Nat.find_spec hsome
  exact ⟨i₀, _, b₀, h₀, fun j r' b' hd' => Nat.find_min' hsome ⟨j, b', hd'⟩⟩

/-- Agreement: all decisions are equal. -/
theorem agreement (h : P.Lawful) (hu : P.Unique) (hd : P.decision i r b) (hd' : P.decision j r' b')
    : b = b' := by
  obtain ⟨i₀, r₀, b₀, h₀, hfirst⟩ := exists_first_decision hd
  rw [h.eq_first_decision hu h₀ hfirst hd, h.eq_first_decision hu h₀ hfirst hd']

/-- Persistence: a later round is entered with the decided value. -/
theorem persistence (h : P.Lawful) (hu : P.Unique) (hd : P.decision i r b) (hlt : r < r')
    (he : P.estimate j r' b') : b' = b := by
  obtain ⟨i₀, r₀, b₀, h₀, hfirst⟩ := exists_first_decision hd
  have hle := hfirst i r b hd
  rw [h.estimate_of_first_decision hu h₀ hfirst (by omega) he,
    h.eq_first_decision hu h₀ hfirst hd]

end Lawful

end CoinRounds

end SkaleConsensus.Library

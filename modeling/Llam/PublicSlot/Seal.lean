import Llam.Lib.Cyclic

/-!
# Sealed generation tokens of public slots

The arithmetic of `runtime_public_slot_seal.h`. A slot of a family table has a multiplier and an addend, chosen once
from the table key. Its public generation is a token in `1 .. 2^28 - 1` shifted over the four family bits, and each
activation moves the token by the multiplier on the cycle of `2^28 - 1` points. `affineGenAt` is the generation of an
epoch in closed form; `nextAffineGeneration` computes the one of the next epoch (`nextAffineGeneration_genAt`), and
generations of different epochs differ (`affineGenAt_inj`). `sealed_token_arithmetic` is the same for the tokens, with
the search for a multiplier and the reduction modulo `2^28 - 1` by folding.

32-bit fields are natural numbers with their reductions written out; the 64-bit key material is `UInt64`.
-/

namespace Llam.PublicSlot

open Llam.Lib

/-! ## Constants and generations -/

/-- `LLAM_PUBLIC_HANDLE_FAMILY_MASK`. -/
def familyMask : Nat := 15

/-- `LLAM_PUBLIC_HANDLE_FAMILY_MAX_EPOCH`, which is also `LLAM_PUBLIC_HANDLE_EPOCH_MASK`. -/
def maxEpoch : Nat := 268435455

/-- `LLAM_PUBLIC_SLOT_MAX_GENERATION`. -/
def maxGeneration : Nat := 4294967295

def familyValid (family : Nat) : Bool := family ≠ 0 && family ≤ familyMask

/-- `llam_public_slot_family_generation`. -/
def familyGeneration (epoch family : Nat) : Nat := ((epoch <<< 4) % 2 ^ 32) ||| family

/-- `llam_public_slot_next_generation`, the plain counter of tables without a family. -/
def nextGeneration (generation : Nat) : Nat :=
  let generation := (generation + 1) % 2 ^ 32
  generation + (if generation = 0 then 1 else 0)

/-! ## Choosing a seal -/

/-- `llam_mix64`. -/
def mix64 (value : UInt64) : UInt64 :=
  let value := (value ^^^ (value >>> 30)) * 0xbf58476d1ce4e5b9
  let value := (value ^^^ (value >>> 27)) * 0x94d049bb133111eb
  value ^^^ (value >>> 31)

/-- Coprimality with `2^28 - 1`, tested on its prime factors. -/
def affineMultiplierValid (multiplier : Nat) : Bool :=
  multiplier ≠ 0 && multiplier % 3 ≠ 0 && multiplier % 5 ≠ 0 && multiplier % 29 ≠ 0 && multiplier % 43 ≠ 0 &&
    multiplier % 113 ≠ 0 && multiplier % 127 ≠ 0

def mersenne28Reduce (value : Nat) : Nat :=
  let reduced := (value &&& maxEpoch) + (value >>> 28)
  let reduced := (reduced &&& maxEpoch) + (reduced >>> 28)
  let reduced := if maxEpoch ≤ reduced then reduced - maxEpoch else reduced
  reduced % 2 ^ 32

/-- The `while` loop of `llam_public_slot_choose_affine_multiplier`. -/
def chooseLoop : Nat → Nat → Nat
  | 0, multiplier => multiplier
  | fuel + 1, multiplier =>
    if affineMultiplierValid multiplier then multiplier
    else
      let multiplier := (multiplier + 1) % 2 ^ 32
      chooseLoop fuel (if multiplier = 0 || maxEpoch < multiplier then 1 else multiplier)

/-- `llam_public_slot_choose_affine_multiplier`; `chooseAffineMultiplier_valid` shows that the fuel suffices. -/
def chooseAffineMultiplier (seed : UInt64) : Nat :=
  let multiplier := mersenne28Reduce seed.toNat
  chooseLoop (maxEpoch + 2) (if multiplier = 0 then 1 else multiplier)

/-! ## The next token -/

def nextAffineToken (previousGeneration family sealMultiplier sealAddend : Nat) : Nat :=
  if previousGeneration ≠ 0 && previousGeneration &&& familyMask = family then
    let token := previousGeneration >>> 4
    let zeroBased := if token ≠ 0 then token - 1 else 0
    let zeroBased := (zeroBased + sealMultiplier) % 2 ^ 32
    let zeroBased := if maxEpoch ≤ zeroBased then zeroBased - maxEpoch else zeroBased
    (zeroBased + 1) % 2 ^ 32
  else (sealAddend + 1) % 2 ^ 32

/-- `llam_public_slot_affine_epoch_token`, the oracle for the token of an epoch. -/
def affineEpochToken (epoch multiplier addend : Nat) : Nat :=
  let epoch := if epoch = 0 then 1 else epoch
  let index := epoch - 1
  (mersenne28Reduce ((index * multiplier + addend) % 2 ^ 64) + 1) % 2 ^ 32

def nextAffineGeneration (previousGeneration family sealMultiplier sealAddend : Nat) : Nat :=
  familyGeneration (nextAffineToken previousGeneration family sealMultiplier sealAddend) family

/-! ## What a chosen seal satisfies -/

theorem maxEpoch_factors : maxEpoch = 3 * (5 * (29 * (43 * (113 * 127)))) := rfl

/-- A valid multiplier is coprime to the length of the cycle. -/
theorem coprime_of_valid {m : Nat} (h : affineMultiplierValid m = true) : Nat.Coprime maxEpoch m := by
  have hprime : ∀ p, Nat.Prime p → m % p ≠ 0 → Nat.Coprime p m := by
    intro p hp hm
    exact (Nat.Prime.coprime_iff_not_dvd hp).mpr fun hd => hm (Nat.mod_eq_zero_of_dvd hd)
  simp only [affineMultiplierValid, Bool.and_eq_true, decide_eq_true_eq] at h
  obtain ⟨⟨⟨⟨⟨⟨-, h3⟩, h5⟩, h29⟩, h43⟩, h113⟩, h127⟩ := h
  rw [maxEpoch_factors]
  simp only [Nat.coprime_mul_iff_left]
  exact ⟨hprime 3 (by norm_num) h3, hprime 5 (by norm_num) h5, hprime 29 (by norm_num) h29,
    hprime 43 (by norm_num) h43, hprime 113 (by norm_num) h113, hprime 127 (by norm_num) h127⟩

theorem valid_one : affineMultiplierValid 1 = true := by decide

/-- The modulus itself is not a valid multiplier, so a valid one in range is below it. -/
theorem lt_of_valid {m : Nat} (h : affineMultiplierValid m = true) (hle : m ≤ maxEpoch) : m < maxEpoch := by
  rcases Nat.lt_or_eq_of_le hle with hlt | rfl
  · exact hlt
  · exact absurd h (by decide)

/-- A fold keeps the point on the cycle, as `2^28` is 1 there. -/
theorem fold_mod (n : Nat) : ((n &&& maxEpoch) + (n >>> 28)) % maxEpoch = n % maxEpoch := by
  have hand : n &&& maxEpoch = n % 2 ^ 28 := Nat.and_two_pow_sub_one_eq_mod n 28
  have hM : maxEpoch = 268435455 := rfl
  rw [hand, Nat.shiftRight_eq_div_pow, ← Nat.add_mul_mod_self_left _ maxEpoch (n / 2 ^ 28)]
  rw [hM]
  omega

theorem fold_le (n : Nat) : (n &&& maxEpoch) + (n >>> 28) ≤ maxEpoch + n / 2 ^ 28 := by
  rw [Nat.shiftRight_eq_div_pow]
  exact Nat.add_le_add_right Nat.and_le_right _

/-- **Folding twice and subtracting once is the remainder**: the second fold is below twice the length of the cycle. -/
theorem mersenne28Reduce_eq {value : Nat} (h : value < 2 ^ 64) : mersenne28Reduce value = value % maxEpoch := by
  have hM : maxEpoch = 268435455 := rfl
  have h1 := fold_le value
  have h2 := fold_le ((value &&& maxEpoch) + (value >>> 28))
  rw [← fold_mod value, ← fold_mod]
  simp only [mersenne28Reduce]
  generalize (value &&& maxEpoch) + (value >>> 28) = first at h1 h2 ⊢
  generalize (first &&& maxEpoch) + (first >>> 28) = second at h2 ⊢
  rw [hM]
  split <;> omega

/-- From a point in range the search meets a valid multiplier no later than at its wrap to 1. -/
theorem chooseLoop_valid : ∀ (fuel m : Nat), m ≤ maxEpoch → maxEpoch + 1 - m < fuel →
    affineMultiplierValid (chooseLoop fuel m) = true ∧ chooseLoop fuel m ≤ maxEpoch
  | 0, _, _, hf => absurd hf (by omega)
  | fuel + 1, m, hm, hf => by
    have hM : maxEpoch = 268435455 := rfl
    unfold chooseLoop
    split
    · rename_i hv
      exact ⟨hv, hm⟩
    have hmod : (m + 1) % 2 ^ 32 = m + 1 := Nat.mod_eq_of_lt (by omega)
    simp only [hmod, Nat.add_eq_zero_iff, one_ne_zero, and_false, decide_false, Bool.false_or, decide_eq_true_eq]
    split
    · cases fuel with
      | zero => omega
      | succ fuel => simp [chooseLoop, valid_one, hM]
    · exact chooseLoop_valid fuel (m + 1) (by omega) (by omega)

/-- A search that has met a valid multiplier is over: more fuel does not change it. -/
theorem chooseLoop_more (k : Nat) : ∀ (fuel m : Nat), affineMultiplierValid (chooseLoop fuel m) = true →
    chooseLoop (fuel + k) m = chooseLoop fuel m
  | 0, m, h => by
    cases k with
    | zero => rfl
    | succ k => exact if_pos h
  | fuel + 1, m, h => by
    rw [Nat.add_right_comm]
    unfold chooseLoop at h ⊢
    split
    · rfl
    rename_i hv
    rw [if_neg hv] at h
    exact chooseLoop_more k fuel _ h

/-- **Every chosen multiplier is valid**, and below the length of the cycle. -/
theorem chooseAffineMultiplier_valid (seed : UInt64) :
    affineMultiplierValid (chooseAffineMultiplier seed) = true ∧ chooseAffineMultiplier seed < maxEpoch := by
  have hM : maxEpoch = 268435455 := rfl
  have hr : mersenne28Reduce seed.toNat ≤ maxEpoch := by
    rw [mersenne28Reduce_eq (UInt64.toNat_lt seed)]
    exact (Nat.mod_lt _ (by omega)).le
  have h : ∀ m, m ≤ maxEpoch → affineMultiplierValid (chooseLoop (maxEpoch + 2) m) = true ∧
      chooseLoop (maxEpoch + 2) m ≤ maxEpoch := fun m hm => chooseLoop_valid _ m hm (by omega)
  have hc := h (if mersenne28Reduce seed.toNat = 0 then 1 else mersenne28Reduce seed.toNat) (by split <;> omega)
  exact ⟨hc.1, lt_of_valid hc.1 hc.2⟩

/-! ## The generation of an epoch -/

/-- The seal of a slot: a valid multiplier and an addend on the cycle. -/
def SealGood (multiplier addend : Nat) : Prop :=
  affineMultiplierValid multiplier = true ∧ multiplier < maxEpoch ∧ addend < maxEpoch

/-- The generation a family slot carries in epoch `epoch ≥ 1`, in closed form. -/
def affineGenAt (family multiplier addend epoch : Nat) : Nat :=
  16 * (walk maxEpoch addend multiplier (epoch - 1) + 1) + family

variable {family m a : Nat}

theorem familyGeneration_eq {token : Nat} (ht : token ≤ maxEpoch) (hf : family ≤ familyMask) :
    familyGeneration token family = 16 * token + family := by
  have hM : maxEpoch = 268435455 := rfl
  have hF : familyMask = 15 := rfl
  have hshift : (token <<< 4) % 2 ^ 32 = 2 ^ 4 * token := by
    omega
  rw [familyGeneration, hshift, ← Nat.two_pow_add_eq_or_of_lt (by omega : family < 2 ^ 4) token]

theorem affineGenAt_split (hf : family ≤ familyMask) (m a e : Nat) : affineGenAt family m a e &&& familyMask = family ∧
      affineGenAt family m a e >>> 4 = walk maxEpoch a m (e - 1) + 1 := by
  have hF : familyMask = 15 := rfl
  have hand : ∀ n, n &&& familyMask = n % 2 ^ 4 := fun n => Nat.and_two_pow_sub_one_eq_mod n 4
  rw [hand, Nat.shiftRight_eq_div_pow]
  unfold affineGenAt
  omega

theorem nextAffineToken_zero (hseal : SealGood m a) : nextAffineToken 0 family m a = walk maxEpoch a m 0 + 1 := by
  have hM : maxEpoch = 268435455 := rfl
  have ha := hseal.2.2
  simp only [nextAffineToken, ne_eq, not_true_eq_false, decide_false, Bool.false_and, Bool.false_eq_true, if_false,
    walk_zero ha]
  exact Nat.mod_eq_of_lt (by omega)

section

variable (hf : family ≤ familyMask)

include hf

/-- One step moves the token along the cycle. -/
theorem nextAffineToken_genAt {k : Nat} (hseal : SealGood m a) :
    nextAffineToken (affineGenAt family m a (k + 1)) family m a = walk maxEpoch a m (k + 1) + 1 := by
  have hM : maxEpoch = 268435455 := rfl
  have hm := hseal.2.1
  have hlt := walk_lt (a := a) (m := m) (by omega : 0 < maxEpoch) k
  obtain ⟨hfam, htoken⟩ := affineGenAt_split hf m a (k + 1)
  have hne : affineGenAt family m a (k + 1) ≠ 0 := by unfold affineGenAt; omega
  simp only [nextAffineToken, hfam, htoken, hne, ne_eq, not_false_eq_true, decide_true, Bool.and_self, if_true,
    Nat.add_eq_zero_iff, one_ne_zero, and_false, Nat.add_sub_cancel]
  rw [walk_succ hm k, Nat.mod_eq_of_lt (by omega : walk maxEpoch a m k + m < 2 ^ 32)]
  split <;> exact Nat.mod_eq_of_lt (by omega)

/-- The generation that carries the token of epoch `k + 1`. -/
theorem familyGeneration_walk (m a k : Nat) :
    familyGeneration (walk maxEpoch a m k + 1) family = affineGenAt family m a (k + 1) := by
  have hlt := walk_lt (a := a) (m := m) (by decide : 0 < maxEpoch) k
  rw [familyGeneration_eq hlt hf, affineGenAt, Nat.add_sub_cancel]

theorem nextAffineGeneration_zero (hseal : SealGood m a) :
    nextAffineGeneration 0 family m a = affineGenAt family m a 1 := by
  rw [nextAffineGeneration, nextAffineToken_zero hseal, familyGeneration_walk hf]

/-- **The incremental step computes the closed form of the next epoch.** -/
theorem nextAffineGeneration_genAt {epoch : Nat} (hseal : SealGood m a) (he : 1 ≤ epoch) :
    nextAffineGeneration (affineGenAt family m a epoch) family m a = affineGenAt family m a (epoch + 1) := by
  obtain ⟨k, rfl⟩ : ∃ k, epoch = k + 1 := ⟨epoch - 1, by omega⟩
  rw [nextAffineGeneration, nextAffineToken_genAt hf hseal, familyGeneration_walk hf]

end

theorem affineGenAt_inj {e e' : Nat} (hseal : SealGood m a) (he : 1 ≤ e) (he' : 1 ≤ e')
    (hle : e ≤ maxEpoch) (hle' : e' ≤ maxEpoch) (h : affineGenAt family m a e = affineGenAt family m a e') :
    e = e' := by
  have hw : walk maxEpoch a m (e - 1) = walk maxEpoch a m (e' - 1) := by
    unfold affineGenAt at h
    omega
  have := walk_inj (coprime_of_valid hseal.1) (by omega : e - 1 < maxEpoch) (by omega : e' - 1 < maxEpoch) hw
  omega

/-! ## Tokens -/

/-- The token of a slot after its first activation and `n` more. -/
def steppedToken (family multiplier addend : Nat) : Nat → Nat
  | 0 => nextAffineToken 0 family multiplier addend
  | n + 1 => nextAffineToken (familyGeneration (steppedToken family multiplier addend n) family) family multiplier addend

theorem steppedToken_eq (hf : family ≤ familyMask) (hseal : SealGood m a) (n : Nat) :
    steppedToken family m a n = walk maxEpoch a m n + 1 := by
  induction n with
  | zero => exact nextAffineToken_zero hseal
  | succ n ih => rw [steppedToken, ih, familyGeneration_walk hf, nextAffineToken_genAt hf hseal]

theorem affineEpochToken_eq {n : Nat} (hseal : SealGood m a) (hn : n < maxEpoch) :
    affineEpochToken (n + 1) m a = walk maxEpoch a m n + 1 := by
  have hM : maxEpoch = 268435455 := rfl
  have hlt := walk_lt (a := a) (m := m) (by omega : 0 < maxEpoch) n
  -- The product of two 28-bit numbers leaves room for the addend in 64 bits.
  have hmul : n * m ≤ 268435455 * 268435455 := Nat.mul_le_mul hn.le hseal.2.1.le
  have hfit : n * m + a < 2 ^ 64 := by
    have := hseal.2.2
    omega
  rw [walk, Nat.add_comm a] at hlt ⊢
  simp only [affineEpochToken, Nat.add_eq_zero_iff, one_ne_zero, and_false, if_false, Nat.add_sub_cancel,
    Nat.mod_eq_of_lt hfit, mersenne28Reduce_eq hfit]
  exact Nat.mod_eq_of_lt (by omega)

/-- **Sealed token arithmetic.** The search for a multiplier ends for every seed, with one coprime to `2^28 - 1`. From
every multiplier it accepts and every addend, the stepped tokens are the closed form, and over one turn of the cycle
they are distinct and not zero. The fold is the remainder. -/
theorem sealed_token_arithmetic :
    (∀ seed : UInt64, Nat.Coprime maxEpoch (chooseAffineMultiplier seed) ∧
      affineMultiplierValid (chooseAffineMultiplier seed) = true ∧ chooseAffineMultiplier seed ≤ maxEpoch ∧
      ∀ fuel, maxEpoch + 2 ≤ fuel → chooseLoop fuel
        (if mersenne28Reduce seed.toNat = 0 then 1 else mersenne28Reduce seed.toNat) = chooseAffineMultiplier seed) ∧
    (∀ family m a, family ≤ familyMask → affineMultiplierValid m = true → m ≤ maxEpoch → a < maxEpoch →
      (∀ n, n < maxEpoch →
        steppedToken family m a n = affineEpochToken (n + 1) m a ∧ steppedToken family m a n ≠ 0) ∧
      ∀ n n', n < maxEpoch → n' < maxEpoch → steppedToken family m a n = steppedToken family m a n' → n = n') ∧
    ∀ value, value < 2 ^ 64 → mersenne28Reduce value = value % maxEpoch := by
  refine ⟨fun seed => ?_, fun family m a hf hm hle ha => ?_, fun value h => mersenne28Reduce_eq h⟩
  · have hv := chooseAffineMultiplier_valid seed
    refine ⟨coprime_of_valid hv.1, hv.1, hv.2.le, fun fuel hfuel => ?_⟩
    obtain ⟨k, rfl⟩ := Nat.exists_eq_add_of_le hfuel
    exact chooseLoop_more k _ _ hv.1
  · have hseal : SealGood m a := ⟨hm, lt_of_valid hm hle, ha⟩
    have htok := steppedToken_eq hf hseal
    refine ⟨fun n hn => ⟨?_, ?_⟩, fun n n' hn hn' h => ?_⟩
    · rw [htok, affineEpochToken_eq hseal hn]
    · rw [htok]
      exact Nat.succ_ne_zero _
    · rw [htok, htok] at h
      exact walk_inj (coprime_of_valid hm) hn hn' (Nat.succ.inj h)

theorem sealed_token_arithmetic_at :
    steppedToken 3 2 7 5 = affineEpochToken 6 2 7 ∧ mersenne28Reduce (2 ^ 64 - 1) = (2 ^ 64 - 1) % maxEpoch :=
  ⟨((sealed_token_arithmetic.2.1 3 2 7 (by decide) (by decide) (by decide) (by decide)).1 5 (by decide)).1,
    sealed_token_arithmetic.2.2 _ (by decide)⟩

end Llam.PublicSlot

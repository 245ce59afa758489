import Llam.PublicSlot.Fresh

/-!
# Public handles as words

`llam_public_slot_encode_handle` and `llam_public_slot_decode_handle` (`runtime_public_slot.h`) put the slot, counted from
one, above `shift` bits of generation. `Packs` is what such a word stands for. Both functions compute it
(`encodeHandle_packs`, `decodeHandle_packs`), and so each undoes the other (`handle_encoding_exact`). The words of a table
are as fresh and exact as its handles (`issued_words_fresh_and_exact`).
-/

namespace Llam.PublicSlot

/-- `llam_public_slot_encode_handle`; a word has 64 bits (a narrower `uintptr_t` does not compile). -/
def encodeHandle (slot : BitVec 64) (generation : BitVec 32) (shift : Nat) : BitVec 64 :=
  let slotWord := slot + 1
  if generation = 0 ∨ shift = 0 ∨ 64 ≤ shift ∨ slotWord = 0 ∨ BitVec.allOnes 64 >>> shift < slotWord ∨
      generation.setWidth 64 >>> shift ≠ 0 then 0
  else slotWord <<< shift ||| generation.setWidth 64

/-- `llam_public_slot_decode_handle`. -/
def decodeHandle (raw : BitVec 64) (shift : Nat) : Option (BitVec 64 × BitVec 32) :=
  if shift = 0 ∨ 64 ≤ shift then none
  else
    let slotWord := raw >>> shift
    let low := (1#64 <<< shift) - 1#64
    let generationBits := if shift < 32 then raw &&& low else raw &&& 0xFFFFFFFF#64
    if 32 < shift ∧ raw &&& (low &&& ~~~0xFFFFFFFF#64) ≠ 0 then none
    else
      let generation := generationBits.setWidth 32
      if slotWord = 0 ∨ generation = 0 then none else some (slotWord - 1, generation)

/-- `llam_public_slot_resolve_encoded`. -/
def resolveEncoded {Obj : Type} (t : Table Obj) (raw : BitVec 64) (shift : Nat) : Option Obj :=
  (decodeHandle raw shift).bind fun h => resolve t ⟨h.1.toNat, h.2.toNat⟩

/-- The bits of `raw` from `shift` on are the slot, counted from one, and those below are the generation. -/
structure Packs (raw : BitVec 64) (shift : Nat) (slot : BitVec 64) (generation : BitVec 32) : Prop where
  shift_pos : 0 < shift
  shift_lt : shift < 64
  high : raw.toNat / 2 ^ shift = slot.toNat + 1
  low : raw.toNat % 2 ^ shift = generation.toNat
  live : generation ≠ 0

variable {raw slot : BitVec 64} {generation : BitVec 32} {shift : Nat}

theorem toNat_and_uint32Max (x : BitVec 64) : (x &&& 0xFFFFFFFF#64).toNat = x.toNat % 2 ^ 32 := by
  rw [BitVec.toNat_and]
  exact Nat.and_two_pow_sub_one_eq_mod _ 32

theorem and_not_uint32Max_eq_zero {x : BitVec 64} : x &&& ~~~0xFFFFFFFF#64 = 0 ↔ x.toNat < 2 ^ 32 := by
  have hlow : x &&& 0xFFFFFFFF#64 = x ↔ x.toNat < 2 ^ 32 := by
    rw [← BitVec.toNat_inj, toNat_and_uint32Max]
    omega
  rw [← hlow]
  constructor
  · intro h
    calc x &&& 0xFFFFFFFF#64
      _ = (x &&& 0xFFFFFFFF#64) ||| (x &&& ~~~0xFFFFFFFF#64) := by rw [h]; exact BitVec.or_zero.symm
      _ = x := by rw [← BitVec.and_or_distrib_left]; exact BitVec.and_allOnes
  · intro h
    rw [← h, BitVec.and_assoc]
    exact BitVec.and_zero

theorem toNat_and_low (raw : BitVec 64) (h : shift < 64) :
    (raw &&& ((1#64 <<< shift) - 1#64)).toNat = raw.toNat % 2 ^ shift := by
  have hone : (1#64 <<< shift).toNat = 2 ^ shift := BitVec.toNat_twoPow_of_lt h
  rw [BitVec.toNat_and, BitVec.toNat_sub_of_le, hone]
  · exact Nat.and_two_pow_sub_one_eq_mod _ shift
  · rw [BitVec.le_def, hone]
    exact Nat.two_pow_pos shift

theorem toNat_slotWord_iff {word slot : BitVec 64} : word.toNat = slot.toNat + 1 ↔ word ≠ 0 ∧ word - 1 = slot := by
  bv_omega

/-- What the encoder accepts it packs, and it accepts all that can be packed. -/
theorem encodeHandle_packs : encodeHandle slot generation shift = raw ∧ raw ≠ 0 ↔ Packs raw shift slot generation := by
  have hpow : 0 < 2 ^ shift := Nat.two_pow_pos shift
  have hgen : (generation.setWidth 64).toNat = generation.toNat := by
    rw [BitVec.toNat_setWidth]
    omega
  have hfit : generation.setWidth 64 >>> shift = 0 ↔ generation.toNat < 2 ^ shift := by
    rw [← BitVec.toNat_inj, BitVec.toNat_ushiftRight, hgen, Nat.shiftRight_eq_div_pow]
    exact Nat.div_eq_zero_iff_lt hpow
  have hroom : ¬ BitVec.allOnes 64 >>> shift < slot + 1 ↔ (slot + 1).toNat * 2 ^ shift < 2 ^ 64 := by
    rw [BitVec.lt_def, BitVec.toNat_ushiftRight, BitVec.toNat_allOnes, Nat.shiftRight_eq_div_pow,
      Nat.div_lt_iff_lt_mul hpow]
    omega
  have hword (hlow : generation.toNat < 2 ^ shift) (hhigh : (slot + 1).toNat * 2 ^ shift < 2 ^ 64) :
      generation.toNat + 2 ^ shift * (slot + 1).toNat = ((slot + 1) <<< shift ||| generation.setWidth 64).toNat := by
    rw [BitVec.toNat_or, BitVec.toNat_shiftLeft, hgen, Nat.shiftLeft_eq, Nat.mod_eq_of_lt hhigh, ← Nat.shiftLeft_eq,
      ← Nat.shiftLeft_add_eq_or_of_lt hlow, Nat.shiftLeft_eq, Nat.add_comm, Nat.mul_comm]
  unfold encodeHandle
  constructor
  · rintro ⟨rfl, hne⟩
    dsimp only at hne ⊢
    split at hne
    · exact absurd rfl hne
    rename_i hok
    rw [if_neg hok]
    simp only [not_or, hroom, ne_eq, not_not, hfit] at hok
    obtain ⟨hlive, hpos, hlt, hslot, hhigh, hlow⟩ := hok
    have hone : (slot + 1).toNat = slot.toNat + 1 := toNat_slotWord_iff.mpr ⟨hslot, BitVec.add_sub_cancel _ _⟩
    obtain ⟨hquot, hrem⟩ := (Nat.div_mod_unique hpow).mpr ⟨hword hlow hhigh, hlow⟩
    exact ⟨by omega, by omega, hquot.trans hone, hrem, hlive⟩
  · intro h
    obtain ⟨hsum, hlow⟩ := (Nat.div_mod_unique hpow).mp ⟨h.high, h.low⟩
    have hone : (slot + 1).toNat = slot.toNat + 1 := by
      have hle : slot.toNat + 1 ≤ 2 ^ shift * (slot.toNat + 1) := Nat.le_mul_of_pos_left _ hpow
      bv_omega
    have hhigh : (slot + 1).toNat * 2 ^ shift < 2 ^ 64 := by
      rw [hone, Nat.mul_comm]
      omega
    constructor
    · rw [if_neg]
      · exact BitVec.eq_of_toNat_eq (by rw [← hword hlow hhigh, hone, hsum])
      · simp only [not_or, hroom, ne_eq, not_not, hfit]
        exact ⟨h.live, h.shift_pos.ne', not_le.mpr h.shift_lt, (toNat_slotWord_iff.mp hone).1, hhigh, hlow⟩
    · rintro rfl
      have hhigh := h.high
      simp at hhigh

/-- The decoder accepts exactly the packed words, and returns what is in them. -/
theorem decodeHandle_packs : decodeHandle raw shift = some (slot, generation) ↔ Packs raw shift slot generation := by
  unfold decodeHandle
  split
  · rename_i hs
    refine iff_of_false (by simp) fun h => ?_
    have hpos := h.shift_pos
    have hlt := h.shift_lt
    omega
  rename_i hs
  have hlow := toNat_and_low raw (show shift < 64 by omega)
  have hword : (raw >>> shift).toNat = raw.toNat / 2 ^ shift := by
    rw [BitVec.toNat_ushiftRight, Nat.shiftRight_eq_div_pow]
  dsimp only
  simp only [← BitVec.and_assoc, ne_eq, and_not_uint32Max_eq_zero, hlow]
  split
  · rename_i hhigh
    exact iff_of_false (by simp) fun h => hhigh.2 (h.low ▸ generation.isLt)
  rename_i hhigh
  generalize hg : BitVec.setWidth 32 _ = found
  have hfound : found.toNat = raw.toNat % 2 ^ shift := by
    have hmod := Nat.mod_lt raw.toNat (Nat.two_pow_pos shift)
    rw [← hg, BitVec.toNat_setWidth]
    split
    · rename_i hsmall
      have hpow : 2 ^ shift < 2 ^ 32 := Nat.pow_lt_pow_right (by decide) hsmall
      rw [hlow, Nat.mod_eq_of_lt (hmod.trans hpow)]
    rename_i hlarge
    have hfits : raw.toNat % 2 ^ shift < 2 ^ 32 := by
      rcases Nat.eq_or_lt_of_le (Nat.le_of_not_lt hlarge) with rfl | hgt
      · exact hmod
      · exact not_not.mp fun h => hhigh ⟨hgt, h⟩
    rw [toNat_and_uint32Max, Nat.mod_mod, ← Nat.mod_eq_of_lt hfits,
      Nat.mod_mod_of_dvd _ (Nat.pow_dvd_pow 2 (Nat.le_of_not_lt hlarge))]
  constructor
  · intro h
    split at h
    · cases h
    rename_i hne
    cases h
    have hslot := toNat_slotWord_iff.mpr ⟨fun h0 => hne (.inl h0), rfl⟩
    exact ⟨by omega, by omega, hword.symm.trans hslot, hfound.symm, fun h0 => hne (.inr h0)⟩
  · intro h
    have hgen : found = generation := BitVec.eq_of_toNat_eq (hfound.trans h.low)
    obtain ⟨hne, hslot⟩ := toNat_slotWord_iff.mp (hword.trans h.high)
    rw [hgen, hslot, if_neg (not_or.mpr ⟨hne, h.live⟩)]

/-- **Handle encoding.** For every shift, a pair that the encoder accepts (its word is not zero) decodes to itself, a word
that the decoder accepts is the encoding of what it decodes to, accepted pairs with one word are equal, and zero is no
handle. -/
theorem handle_encoding_exact (shift : Nat) :
    (∀ slot generation, encodeHandle slot generation shift ≠ 0 →
      decodeHandle (encodeHandle slot generation shift) shift = some (slot, generation)) ∧
    (∀ raw slot generation, decodeHandle raw shift = some (slot, generation) →
      encodeHandle slot generation shift = raw) ∧
    (∀ slot generation slot' generation', encodeHandle slot generation shift ≠ 0 →
      encodeHandle slot generation shift = encodeHandle slot' generation' shift →
      slot = slot' ∧ generation = generation') ∧
    decodeHandle 0 shift = none ∧ ∀ {Obj : Type} (t : Table Obj), resolveEncoded t 0 shift = none := by
  have hback := fun slot generation (h : encodeHandle slot generation shift ≠ 0) =>
    decodeHandle_packs.mpr (encodeHandle_packs.mp ⟨rfl, h⟩)
  have hzero : decodeHandle 0 shift = none := by
    rw [Option.eq_none_iff_forall_ne_some]
    rintro ⟨slot, generation⟩ h
    exact (encodeHandle_packs.mpr (decodeHandle_packs.mp h)).2 rfl
  refine ⟨hback, fun raw slot generation h => (encodeHandle_packs.mpr (decodeHandle_packs.mp h)).1,
    fun slot generation slot' generation' h heq => ?_, hzero, fun t => ?_⟩
  · have hsame := hback slot generation h
    rw [heq, hback slot' generation' (heq ▸ h)] at hsame
    cases hsame
    exact ⟨rfl, rfl⟩
  · rw [resolveEncoded, hzero, Option.bind_none]

theorem handle_encoding_exact_at :
    encodeHandle 6 0xFFFFFFFF 32 = 0x7FFFFFFFF ∧ decodeHandle 0x7FFFFFFFF 32 = some (6, 0xFFFFFFFF) :=
  have hword : encodeHandle 6 0xFFFFFFFF 32 = 0x7FFFFFFFF := by decide
  ⟨hword, hword ▸ (handle_encoding_exact 32).1 6 0xFFFFFFFF (by decide)⟩

/-! ## The words of a table -/

/-- The word of a handle, with 32 bits of generation as in all public handles of the runtime. -/
def Handle.word (h : Handle) : BitVec 64 := encodeHandle (.ofNat 64 h.slot) (.ofNat 32 h.generation) 32

def Handle.Fits (h : Handle) : Prop := h.slot < maxSlots ∧ 0 < h.generation ∧ h.generation < 2 ^ 32

variable {Obj : Type} {cfg : Config} {t : Table Obj} {fl : List Nat} {h : Handle}

theorem Handle.Fits.packs (hfits : h.Fits) : Packs h.word 32 (.ofNat 64 h.slot) (.ofNat 32 h.generation) := by
  obtain ⟨hslot, hpos, hgen⟩ := hfits
  have hM : maxSlots = 4294967295 := rfl
  have hpacks : Packs (.ofNat 64 (2 ^ 32 * (h.slot + 1) + h.generation)) 32 (.ofNat 64 h.slot) (.ofNat 32 h.generation) := by
    refine ⟨by decide, by decide, ?_, ?_, ?_⟩
    all_goals simp only [ne_eq, ← BitVec.toNat_inj, BitVec.ofNat_eq_ofNat, BitVec.toNat_ofNat]
    all_goals omega
  rw [Handle.word, (encodeHandle_packs.mpr hpacks).1]
  exact hpacks

theorem Handle.Fits.decode (hfits : h.Fits) :
    (decodeHandle h.word 32).map (fun p => Handle.mk p.1.toNat p.2.toNat) = some h := by
  rw [decodeHandle_packs.mpr hfits.packs]
  obtain ⟨hslot, -, hgen⟩ := hfits
  have hM : maxSlots = 4294967295 := rfl
  simp only [Option.map_some, BitVec.toNat_ofNat]
  rw [Nat.mod_eq_of_lt (by omega), Nat.mod_eq_of_lt hgen]

theorem Live.fits {i : Issue Obj} (hf : FamilyOk cfg) (hg : Good cfg t fl) (hl : Live t i) : i.1.Fits := by
  obtain ⟨hslot, hgen, -⟩ := hl
  have hentry := hg.entries _ hslot
  have hle := hentry.le
  have hfamily : cfg.family ≤ 15 := hf.le
  have hcount := hg.count_le
  rw [Handle.Fits, hgen, hentry.generation]
  refine ⟨by omega, Nat.pos_of_ne_zero (genAt_pos _ hentry.pos), ?_⟩
  unfold genAt affineGenAt
  unfold epochLimit at hle
  have hE : maxEpoch = 268435455 := rfl
  have hG : maxGeneration = 4294967295 := rfl
  split
  · have hwalk := Lib.walk_lt (M := maxEpoch) (a := (t.slots i.1.slot).sealAddend)
      (m := (t.slots i.1.slot).sealMultiplier) (by decide) ((t.slots i.1.slot).epoch - 1)
    omega
  · rename_i hzero
    rw [if_neg hzero] at hle
    omega

variable [DecidableEq Obj]

theorem issues_fit (hf : FamilyOk cfg) (hg : Good cfg t fl) (ops : List (Op Obj)) : ∀ i ∈ issues cfg t ops, i.1.Fits := by
  induction ops generalizing t fl with
  | nil => simp [issues]
  | cons op ops ih =>
    have hs := step_spec hf hg op
    obtain ⟨fl', hg'⟩ := hs.good
    intro i hi
    rcases List.mem_append.mp hi with hi | hi
    · exact (hs.issues i (Option.mem_toList.mp hi)).live.fits hf hg'
    · exact ih hg' i hi

/-- **Words are fresh and exact.** Along every sequence of operations on an empty table the words of the issued handles are
distinct and not zero, and resolving a word is resolving its handle, in that table and in every other. -/
theorem issued_words_fresh_and_exact (cfg : Config) (ops : List (Op Obj)) :
    ((issues cfg Table.empty ops).map fun i => i.1.word).Nodup ∧
    ∀ i ∈ issues cfg Table.empty ops, i.1.word ≠ 0 ∧ ∀ t : Table Obj, resolveEncoded t i.1.word 32 = resolve t i.1 := by
  by_cases hf : FamilyOk cfg
  · have hfits := issues_fit hf empty_good ops
    refine ⟨?_, fun i hi => ⟨(encodeHandle_packs.mpr (hfits i hi).packs).2, fun t => ?_⟩⟩
    · rw [← Function.comp_def, ← List.map_map]
      refine (issues_fresh hf empty_good ops).1.map_on ?_
      simp only [List.mem_map]
      rintro _ ⟨i, hi, rfl⟩ _ ⟨j, hj, rfl⟩ heq
      have hdecode := (hfits i hi).decode
      rw [heq, (hfits j hj).decode] at hdecode
      exact (Option.some.inj hdecode).symm
    · obtain ⟨p, hp, heq⟩ := Option.map_eq_some_iff.mp (hfits i hi).decode
      rw [resolveEncoded, hp, ← heq]
      rfl
  · simp [issues_bad_family hf]

end Llam.PublicSlot

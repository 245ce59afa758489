import Llam.Lib.Run
import Llam.Wait.Gate

/-!
# The word behind the resolver gate

`wait_resolver_state` (`wait_tracking.c`) has a closed bit above a count. A resolver enters by a compare-and-swap loop and
leaves by one decrement; the closer sets the bit and polls; the publisher swaps the closed and empty word for zero. Each
access to the word is a step of its own here, except for the loads of the closer, which change nothing (`poll`). The count
is the number of resolvers inside, whatever the order of the steps (`resolver_gate`), and the word is a `Gate` whose
operations are single steps (`word_refines_gate`).
-/

namespace Llam.Wait.Resolvers

open Llam.Lib Function

/-- `LLAM_WAIT_RESOLVER_CLOSED_BIT`. -/
def closedBit : BitVec 32 := BitVec.allOnes 32 - BitVec.allOnes 32 >>> 1

/-- `LLAM_WAIT_RESOLVER_REF_MASK`. -/
def refMask : BitVec 32 := BitVec.allOnes 32 >>> 1

def refs (word : BitVec 32) : Nat := (word &&& refMask).toNat

def isClosed (word : BitVec 32) : Bool := word &&& closedBit ≠ 0

/-- Where a resolver is: in the loop of `llam_task_wait_resolver_try_begin` with the word it read last, inside, or before
the decrement of `llam_task_wait_resolver_end`. -/
inductive Pc
  | out
  | trying (state : BitVec 32)
  | inside
  | leaving
  | aborted
  deriving DecidableEq

def Pc.holds : Pc → Bool
  | .inside | .leaving => true
  | _ => false

/-- The next access of a resolver, and where it goes on. A weak exchange may fail without a reason. -/
def resolver (word : BitVec 32) (spurious : Bool) : Pc → Option (BitVec 32 × Pc)
  | .out => some (word, .trying word)
  | .trying state =>
    if state = BitVec.allOnes 32 then some (word, .aborted)
    else if isClosed state then some (word, .out)
    else if refs state ≥ refMask.toNat - 1 then some (word, .aborted)
    else if word = state && !spurious then some (state + 1, .inside)
    else some (word, .trying word)
  | .inside => some (word, if refs word = refMask.toNat ∨ refs word = 0 then .aborted else .leaving)
  | .leaving => some (word - 1, if refs word = 0 ∨ refs word = refMask.toNat then .aborted else .out)
  | .aborted => none

/-- `llam_task_close_wait_resolvers` after a load: it returns, or it loads once more. -/
def poll (word : BitVec 32) : Option Bool :=
  if word = BitVec.allOnes 32 then some false else if refs word = 0 then some true else none

/-- The exchange of `llam_task_publish_wait_tracking`. -/
def publish (word : BitVec 32) : Option (BitVec 32) := if word = closedBit then some 0 else none

/-- The word and the resolvers, and as history who is inside. -/
structure State (K : Type) where
  word : BitVec 32
  pc : K → Pc
  inside : Finset K

inductive Action (K : Type)
  | resolver (k : K) (spurious : Bool)
  | close
  | publish

variable {K : Type} [DecidableEq K]

/-- The set in which only the place of `k` is new. -/
def place (inside : Finset K) (k : K) (holds : Bool) : Finset K := if holds then insert k inside else inside.erase k

def step (s : State K) : Action K → Option (State K)
  | .resolver k spurious => (resolver s.word spurious (s.pc k)).map fun next =>
    ⟨next.1, update s.pc k next.2, place s.inside k next.2.holds⟩
  | .close => some { s with word := s.word ||| closedBit }
  | .publish => some { s with word := (publish s.word).getD s.word }

/-- Fewer than `2 ^ 31 - 2` resolvers at a time. -/
def few (s : State K) : Action K → Bool
  | .resolver k _ => (insert k s.inside).card < 2 ^ 31 - 2
  | _ => true

/-- A new task. -/
def init : State K := ⟨closedBit, fun _ => .out, ∅⟩

/-! ## The two parts of the word -/

theorem refs_eq (word : BitVec 32) : refs word = word.toNat % 2 ^ 31 := by
  rw [refs, BitVec.toNat_and, ← Nat.and_two_pow_sub_one_eq_mod]
  rfl

theorem isClosed_iff (word : BitVec 32) : isClosed word = true ↔ 2 ^ 31 ≤ word.toNat := by
  have hbit : closedBit = BitVec.twoPow 32 31 := by decide
  rw [isClosed, hbit, BitVec.and_twoPow, ← BitVec.msb_eq_getLsbD_last, BitVec.msb_eq_decide]
  by_cases h : 2 ^ 31 ≤ word.toNat <;> simp

theorem refs_or_closedBit (word : BitVec 32) : refs (word ||| closedBit) = refs word := by
  have hzero : closedBit &&& refMask = 0 := by decide
  rw [refs, BitVec.and_or_distrib_right, hzero]
  simp [refs]

theorem isClosed_or_closedBit (word : BitVec 32) : isClosed (word ||| closedBit) = true := by
  rw [isClosed_iff, BitVec.toNat_or]
  exact Nat.right_le_or

/-- An increment below the limit keeps the bit, and so does a decrement of a count that is not zero. -/
theorem refs_succ {word : BitVec 32} (h : refs word < 2 ^ 31 - 2) :
    refs (word + 1) = refs word + 1 ∧ isClosed (word + 1) = isClosed word := by
  rw [Bool.eq_iff_iff, isClosed_iff, isClosed_iff]
  rw [refs_eq] at h ⊢
  rw [refs_eq]
  bv_omega

theorem refs_pred {word : BitVec 32} (h : refs word ≠ 0) :
    refs (word - 1) + 1 = refs word ∧ isClosed (word - 1) = isClosed word := by
  rw [Bool.eq_iff_iff, isClosed_iff, isClosed_iff]
  rw [refs_eq] at h ⊢
  rw [refs_eq]
  bv_omega

/-! ## Steps -/

/-- No check has aborted, and a word that was read had room. -/
def Pc.Ok : Pc → Prop
  | .trying state => refs state < 2 ^ 31 - 2
  | .aborted => False
  | _ => True

/-- A resolver adds itself to the count as it enters, and it does not enter a closed gate. -/
theorem resolver_spec {word word' : BitVec 32} {spurious : Bool} {pc pc' : Pc} (hok : pc.Ok)
    (hroom : refs word < 2 ^ 31 - 2) (hrefs : pc.holds = true → refs word ≠ 0)
    (h : resolver word spurious pc = some (word', pc')) :
    pc'.Ok ∧ refs word' + pc.holds.toNat = refs word + pc'.holds.toNat ∧
    isClosed word' = isClosed word ∧ (isClosed word = true → pc'.holds = true → pc.holds = true) := by
  have hmask : refMask.toNat = 2 ^ 31 - 1 := by decide
  cases pc with
  | out =>
    cases h
    exact ⟨hroom, rfl, rfl, fun _ => id⟩
  | trying state =>
    simp only [resolver] at h
    split_ifs at h with hmax hclosed hfull hword <;> cases h
    · subst hmax
      exact absurd (show refs (BitVec.allOnes 32) < 2 ^ 31 - 2 from hok) (by decide)
    · exact ⟨trivial, rfl, rfl, fun _ => id⟩
    · have hlt : refs state < 2 ^ 31 - 2 := hok
      omega
    · -- the word is the one that was read, and that was open
      simp only [Bool.and_eq_true, decide_eq_true_eq] at hword
      obtain ⟨rfl, -⟩ := hword
      exact ⟨trivial, (refs_succ hroom).1, (refs_succ hroom).2, fun hc => absurd hc hclosed⟩
    · exact ⟨hroom, rfl, rfl, fun _ => id⟩
  | inside =>
    have hne := hrefs rfl
    rw [resolver, if_neg (by omega)] at h
    cases h
    exact ⟨trivial, rfl, rfl, fun _ => id⟩
  | leaving =>
    have hne := hrefs rfl
    rw [resolver, if_neg (by omega)] at h
    cases h
    obtain ⟨hpred, hbit⟩ := refs_pred hne
    exact ⟨trivial, hpred, hbit, by simp [Pc.holds]⟩
  | aborted => cases h

theorem mem_place {inside : Finset K} {k k' : K} {holds : Bool} :
    k' ∈ place inside k holds ↔ if k' = k then holds = true else k' ∈ inside := by
  cases holds <;> by_cases hk : k' = k <;> simp [place, hk]

theorem card_place (inside : Finset K) (k : K) (holds : Bool) :
    (place inside k holds).card + (decide (k ∈ inside)).toNat = inside.card + holds.toNat := by
  by_cases hk : k ∈ inside
  · have herase := Finset.card_erase_add_one hk
    cases holds <;> simp [place, hk, -Finset.card_erase_of_mem, herase]
  · cases holds <;> simp [place, hk]

structure Inv (s : State K) : Prop where
  count : refs s.word = s.inside.card
  room : s.inside.card < 2 ^ 31 - 2
  holds : ∀ k, k ∈ s.inside ↔ (s.pc k).holds = true
  ok : ∀ k, (s.pc k).Ok

variable {s s' : State K} {a : Action K}

theorem Inv.refs_ne_zero (h : Inv s) {k : K} (hk : (s.pc k).holds = true) : refs s.word ≠ 0 := by
  rw [h.count]
  exact Finset.card_ne_zero_of_mem ((h.holds k).mpr hk)

theorem Inv.step (h : Inv s) (hs : guarded few step s a = some s') :
    Inv s' ∧ (isClosed s.word = true → a ≠ .publish → isClosed s'.word = true ∧ s'.inside ⊆ s.inside) := by
  obtain ⟨hfew, hs⟩ := guarded_some.mp hs
  cases a with
  | resolver k spurious =>
    obtain ⟨⟨word, pc⟩, hr, rfl⟩ := Option.map_eq_some_iff.mp hs
    have hcount := h.count
    have hcard := card_place s.inside k pc.holds
    obtain ⟨hok, hword, hbit, hclosed⟩ := resolver_spec (h.ok k) (hcount.trans_lt h.room) h.refs_ne_zero hr
    simp only [h.holds k, Bool.decide_eq_true] at hcard
    refine ⟨⟨by dsimp only; omega, ?_, fun k' => ?_, fun k' => ?_⟩, fun hc _ => ⟨hbit.trans hc, fun k' hk' => ?_⟩⟩
    · refine (Finset.card_le_card fun k' hk' => ?_).trans_lt (of_decide_eq_true hfew)
      rw [mem_place] at hk'
      split at hk' <;> simp_all
    · simp only [mem_place, update_apply]
      split
      · rfl
      · exact h.holds k'
    · simp only [update_apply]
      split
      · exact hok
      · exact h.ok k'
    · rw [mem_place] at hk'
      split at hk'
      · rename_i heq
        rw [heq, h.holds]
        exact hclosed hc hk'
      · exact hk'
  | close =>
    cases hs
    exact ⟨{ h with count := (refs_or_closedBit _).trans h.count }, fun _ _ => ⟨isClosed_or_closedBit _, subset_rfl⟩⟩
  | publish =>
    cases hs
    refine ⟨{ h with count := ?_ }, fun _ hne => absurd rfl hne⟩
    rw [← h.count, publish]
    split
    · rename_i hword
      exact hword ▸ (by decide : refs 0 = refs closedBit)
    · rfl

theorem reachable_inv (h : Reachable (guarded few step) init s) : Inv s := by
  refine h.induction ?_ fun _ _ _ hi hs => (hi.step hs).1
  exact ⟨(by decide : refs closedBit = 0), Nat.zero_lt_succ _, by simp [init, Pc.holds], fun _ => trivial⟩

/-- Between two publications nobody enters once the bit is set. -/
theorem closed_run (h : Inv s) {as : List (Action K)} (hc : isClosed s.word = true) (has : .publish ∉ as)
    (hs : run (guarded few step) s as = some s') : isClosed s'.word = true ∧ s'.inside ⊆ s.inside := by
  induction as generalizing s with
  | nil =>
    cases hs
    exact ⟨hc, subset_rfl⟩
  | cons a as ih =>
    obtain ⟨t, ht, hrun⟩ := run_cons.mp hs
    rw [List.mem_cons, not_or] at has
    obtain ⟨hi, hstep⟩ := h.step ht
    obtain ⟨hct, hsub⟩ := hstep hc (Ne.symm has.1)
    obtain ⟨hcs, hsub'⟩ := ih hi hct has.2 hrun
    exact ⟨hcs, hsub'.trans hsub⟩

/-- **The resolver gate.** In every interleaving no check aborts, the count of the word is the number of resolvers inside,
and none enters between the set bit and the next publication. The closer returns only when nobody is inside, with success,
and a publication succeeds only from the closed and empty word. -/
theorem resolver_gate {s : State K} (h : Reachable (guarded few step) init s) :
    refs s.word = s.inside.card ∧ (∀ k, s.pc k ≠ .aborted ∧ (k ∈ s.inside ↔ (s.pc k).holds = true)) ∧
    (∀ as s', isClosed s.word = true → .publish ∉ as → run (guarded few step) s as = some s' →
      isClosed s'.word = true ∧ s'.inside ⊆ s.inside) ∧
    (∀ ok, poll s.word = some ok → ok = true ∧ s.inside = ∅) ∧
    ∀ word, publish s.word = some word → isClosed s.word = true ∧ s.inside = ∅ := by
  have hi := reachable_inv h
  have hempty : refs s.word = 0 → s.inside = ∅ := fun hzero => Finset.card_eq_zero.mp (hi.count.symm.trans hzero)
  refine ⟨hi.count, fun k => ⟨fun hk => ?_, hi.holds k⟩, fun as s' => closed_run hi, fun ok hok => ?_, fun word hword => ?_⟩
  · have hok := hi.ok k
    rwa [hk] at hok
  · simp only [poll] at hok
    split_ifs at hok with hmax hzero
    · have hroom := hi.room
      rw [← hi.count, hmax] at hroom
      exact absurd hroom (by decide)
    · exact ⟨(Option.some.inj hok).symm, hempty hzero⟩
  · simp only [publish, Option.ite_none_right_eq_some] at hword
    rw [hword.1] at hempty ⊢
    exact ⟨by decide, hempty (by decide)⟩

/-- One resolver is inside when the bit is set; the closer does not return before it has left. -/
theorem resolver_gate_closing : ∃ s : State Nat, s.inside = {0} ∧ isClosed s.word = true ∧ refs s.word = 1 ∧
    ∀ ok, poll s.word ≠ some ok := by
  obtain ⟨s, hs, hword⟩ := exists_reachable (guarded few step) (init : State Nat) (fun s => (s.inside, s.word))
    (b := ({0}, closedBit + 1)) [.publish, .resolver 0 false, .resolver 0 false, .close] (by decide +kernel)
  obtain ⟨hin, hword⟩ := Prod.mk.inj hword
  obtain ⟨hcount, -, -, hpoll, -⟩ := resolver_gate hs
  exact ⟨s, hin, hword ▸ by decide, by simp [hcount, hin], fun ok hok => by simpa [hin] using (hpoll ok hok).2⟩

/-! ## The word is a gate -/

/-- The gate that the word and the history show. -/
def State.gate (s : State K) (h : refs s.word = s.inside.card) : Gate K := ⟨isClosed s.word, refs s.word, s.inside, h⟩

/-- What an action does to the gate. -/
def Moves (g g' : Gate K) : Action K → Prop
  | .resolver k _ => g' = g ∨ g.tryBegin k = some g' ∨ k ∈ g.holders ∧ g' = g.finish k
  | .close => g' = g.close
  | .publish => g' = if g.closed = true ∧ g.drained = true then g.publish else g

/-- **The word refines the gate.** Whatever the interleaving, an access of a resolver is `tryBegin`, `finish` or nothing on
the gate that the word shows, the closer closes it, and the exchange of a publisher publishes if and only if the gate is
closed and drained. -/
theorem word_refines_gate (h : Reachable (guarded few step) init s) (hs : guarded few step s a = some s') :
    ∃ hc hc', Moves (s.gate hc) (s'.gate hc') a := by
  have hi := reachable_inv h
  obtain ⟨hi', -⟩ := hi.step hs
  refine ⟨hi.count, hi'.count, ?_⟩
  obtain ⟨-, hs⟩ := guarded_some.mp hs
  cases a with
  | resolver k spurious =>
    obtain ⟨⟨word, pc⟩, hr, rfl⟩ := Option.map_eq_some_iff.mp hs
    obtain ⟨-, -, hbit, hclosed⟩ := resolver_spec (hi.ok k) (hi.count.trans_lt hi.room) hi.refs_ne_zero hr
    by_cases hk : k ∈ s.inside <;> by_cases hholds : pc.holds = true
    · exact .inl (Gate.eq_of_holders hbit (by simp [State.gate, place, hholds, hk]))
    · exact .inr (.inr ⟨hk, Gate.eq_of_holders hbit (by simp [State.gate, place, hholds, Gate.finish])⟩)
    · have hopen : isClosed s.word = false := by
        by_contra hc
        exact hk ((hi.holds k).mpr (hclosed (by simpa using hc) hholds))
      refine .inr (.inl ?_)
      rw [Gate.tryBegin, dif_neg (by simp [State.gate, hopen, hk])]
      exact congrArg some (Gate.eq_of_holders (hbit.trans hopen).symm (by simp [State.gate, place, hholds]))
    · exact .inl (Gate.eq_of_holders hbit (by simp [State.gate, place, hholds, hk]))
  | close =>
    cases hs
    exact Gate.eq_of_holders (isClosed_or_closedBit _) rfl
  | publish =>
    cases hs
    have hgate : (s.gate hi.count).closed = true ∧ (s.gate hi.count).drained = true ↔ s.word = closedBit := by
      have hbit : closedBit.toNat = 2 ^ 31 := by decide
      simp only [State.gate, Gate.drained, decide_eq_true_eq, isClosed_iff, refs_eq, ← BitVec.toNat_inj]
      omega
    unfold Moves
    by_cases hw : s.word = closedBit
    · rw [if_pos (hgate.mpr hw)]
      refine Gate.eq_of_holders ?_ rfl
      simp only [State.gate, hw]
      exact (by decide : isClosed ((publish closedBit).getD closedBit) = false)
    · rw [if_neg (mt hgate.mp hw)]
      exact Gate.eq_of_holders (by simp [State.gate, publish, hw]) rfl

/-- The exchange of the first resolver is `tryBegin` on the gate that the first publication has opened. -/
theorem word_refines_gate_first : ∃ s s' : State Nat, ∃ hc hc', s.pc 0 = .trying 0 ∧ s'.pc 0 = .inside ∧
    Moves (s.gate hc) (s'.gate hc') (.resolver 0 false) := by
  obtain ⟨s, hr, hs⟩ := exists_reachable (guarded few step) (init : State Nat)
    (fun s => (s.pc 0, (guarded few step s (.resolver 0 false)).map (State.pc · 0))) (b := (.trying 0, some .inside))
    [.publish, .resolver 0 false] (by decide +kernel)
  obtain ⟨htrying, hs⟩ := Prod.mk.inj hs
  obtain ⟨s', hs', hinside⟩ := Option.map_eq_some_iff.mp hs
  obtain ⟨hc, hc', hmoves⟩ := word_refines_gate hr hs'
  exact ⟨s, s', hc, hc', htrying, hinside, hmoves⟩

end Llam.Wait.Resolvers

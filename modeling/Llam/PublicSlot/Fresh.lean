import Llam.PublicSlot.Invariant

/-!
# Handles of a slot table are never reissued

A handle is `Logged` when its generation is that of an epoch its slot has reached. An issued handle is of an epoch that
its slot had not reached before, so it was not logged (`Issues.not_logged`), and from then on it is, in every later table
(`Logged.mono`). It is `Live` as long as its slot stays in that epoch and keeps the object, then `Dead`, for good
(`live_after`, `dead_after`).

The main result combines them over every sequence of operations on an empty table (`issued_handles_fresh_and_exact`).
-/

namespace Llam.PublicSlot

variable {Obj : Type} {cfg : Config}

/-! ## The life of a handle -/

/-- The handle's generation is that of epoch `e`, which its slot has reached. -/
def LoggedAt (cfg : Config) (t : Table Obj) (h : Handle) (e : Nat) : Prop :=
  h.slot < t.count ∧ 1 ≤ e ∧ e ≤ (t.slots h.slot).epoch ∧ h.generation = genAt cfg (t.slots h.slot) e

def Logged (cfg : Config) (t : Table Obj) (h : Handle) : Prop := ∃ e, LoggedAt cfg t h e

/-- The slot is still in the epoch of the handle and holds its object. -/
def Live (t : Table Obj) (i : Issue Obj) : Prop :=
  i.1.slot < t.count ∧ i.1.generation = (t.slots i.1.slot).generation ∧ (t.slots i.1.slot).object = some i.2

/-- The slot has left the epoch of the handle, or has lost its object. -/
def Dead (cfg : Config) (t : Table Obj) (i : Issue Obj) : Prop :=
  ∃ e, LoggedAt cfg t i.1 e ∧ (e < (t.slots i.1.slot).epoch ∨ (t.slots i.1.slot).object = none)

variable {t t' : Table Obj} {fl : List Nat} {i j : Issue Obj}

theorem Live.resolve (h : Good cfg t fl) (hl : Live t i) : resolve t i.1 = some i.2 := by
  obtain ⟨hslot, hgen, hobj⟩ := hl
  have hg := h.entries _ hslot
  have hne : i.1.generation ≠ 0 := by
    rw [hgen, hg.generation]
    exact genAt_pos _ hg.pos
  have hguard : (decide (i.1.generation = 0) || decide (t.count ≤ i.1.slot)) = false := by
    simp [hne]
    omega
  simp only [PublicSlot.resolve, hguard, Bool.false_eq_true, if_false]
  rw [if_pos hgen.symm, hobj]

theorem Dead.resolve (h : Good cfg t fl) (hd : Dead cfg t i) : resolve t i.1 = none := by
  obtain ⟨e, ⟨hslot, hpos, hle, hgen⟩, hdead⟩ := hd
  have hg := h.entries _ hslot
  unfold PublicSlot.resolve
  split
  · rfl
  dsimp only
  split
  · rename_i heq
    rcases hdead with hlt | hnone
    · -- the generation of an earlier epoch is not the current one
      rw [hg.generation, hgen] at heq
      have := hg.genAt_inj hg.pos hpos (Nat.le_refl _) hle heq
      omega
    · exact hnone
  · rfl

theorem Live.logged (h : Good cfg t fl) (hl : Live t i) : LoggedAt cfg t i.1 (t.slots i.1.slot).epoch := by
  have hg := h.entries _ hl.1
  exact ⟨hl.1, hg.pos, Nat.le_refl _, by rw [hl.2.1, hg.generation]⟩

/-! ## One operation -/

/-- Slots are never given back, and an epoch once reached stays reached. -/
def Grows (cfg : Config) (t t' : Table Obj) : Prop :=
  t.count ≤ t'.count ∧ ∀ s < t.count, (t.slots s).epoch ≤ (t'.slots s).epoch ∧
    ∀ e, genAt cfg (t'.slots s) e = genAt cfg (t.slots s) e

theorem LoggedAt.mono {h : Handle} {e : Nat} (hl : LoggedAt cfg t h e) (hg : Grows cfg t t') : LoggedAt cfg t' h e := by
  obtain ⟨hslot, hpos, hle, hgen⟩ := hl
  obtain ⟨hep, hst⟩ := hg.2 h.slot hslot
  exact ⟨Nat.lt_of_lt_of_le hslot hg.1, hpos, Nat.le_trans hle hep, by rw [hgen, hst]⟩

theorem TableRelinked.grows (h : TableRelinked t t') : Grows cfg t t' := by
  refine ⟨Nat.le_of_eq h.count.symm, fun s _ => ?_⟩
  obtain ⟨n, hn⟩ := h.slots s
  rw [hn]
  exact ⟨Nat.le_refl _, fun _ => rfl⟩

theorem Issues.grows (h : Issues cfg t t' i) : Grows cfg t t' := by
  refine ⟨h.count, fun s hs => ?_⟩
  by_cases hne : s = i.1.slot
  · subst hne
    rw [h.epoch hs]
    exact ⟨Nat.le_succ _, h.stable hs⟩
  · obtain ⟨n, hn⟩ := h.others s hs hne
    rw [hn]
    exact ⟨Nat.le_refl _, fun _ => rfl⟩

theorem Issues.live (h : Issues cfg t t' i) : Live t' i :=
  ⟨h.slot, h.generation, h.object⟩

/-- **An issued handle is new.** -/
theorem Issues.not_logged {fl' : List Nat} (h : Issues cfg t t' i) (hg : Good cfg t' fl') : ¬Logged cfg t i.1 := by
  rintro ⟨e, hlog⟩
  have hlog' := hlog.mono h.grows
  have hcur := h.live.logged hg
  have heq := (hg.entries _ h.slot).genAt_inj hlog'.2.1 hcur.2.1 hlog'.2.2.1 hcur.2.2.1
    (hlog'.2.2.2.symm.trans hcur.2.2.2)
  have hep := h.epoch hlog.1
  have hle := hlog.2.2.1
  omega

/-- A dead handle stays dead across an operation that takes no object back into an old epoch. -/
theorem Dead.mono (hd : Dead cfg t i) (hg : Grows cfg t t')
    (hobj : (t'.slots i.1.slot).epoch = (t.slots i.1.slot).epoch → (t.slots i.1.slot).object = none →
      (t'.slots i.1.slot).object = none) : Dead cfg t' i := by
  obtain ⟨e, hlog, hdead⟩ := hd
  have hle := (hg.2 _ hlog.1).1
  refine ⟨e, hlog.mono hg, ?_⟩
  rcases hdead with hlt | hnone
  · exact .inl (Nat.lt_of_lt_of_le hlt hle)
  rcases Nat.lt_or_eq_of_le hle with hlt | heq
  · exact .inl (Nat.lt_of_le_of_lt hlog.2.2.1 hlt)
  · exact .inr (hobj heq.symm hnone)

/-- An operation that issues a handle leaves the dead ones dead. -/
theorem Issues.dead (h : Issues cfg t t' i) (hd : Dead cfg t j) : Dead cfg t' j := by
  refine hd.mono h.grows fun hep hnone => ?_
  have hslot : j.1.slot < t.count := by
    obtain ⟨e, hlog, -⟩ := hd
    exact hlog.1
  by_cases hne : j.1.slot = i.1.slot
  · rw [hne] at hep hslot
    rw [h.epoch hslot] at hep
    omega
  · obtain ⟨n, hn⟩ := h.others _ hslot hne
    rw [hn]
    exact hnone

theorem TableRelinked.dead (h : TableRelinked t t') (hd : Dead cfg t j) : Dead cfg t' j := by
  refine hd.mono h.grows fun _ hnone => ?_
  obtain ⟨n, hn⟩ := h.slots j.1.slot
  rw [hn]
  exact hnone

theorem Issues.live_other (h : Issues cfg t t' i) (hl : Live t j) (hne : j.1.slot ≠ i.1.slot) : Live t' j := by
  obtain ⟨n, hn⟩ := h.others _ hl.1 hne
  exact ⟨Nat.lt_of_lt_of_le hl.1 h.count, by rw [hn]; exact hl.2.1, by rw [hn]; exact hl.2.2⟩

theorem Issues.live_same (h : Issues cfg t t' i)
    (hg : Good cfg t fl) (hl : Live t j) (heq : j.1.slot = i.1.slot) : Dead cfg t' j := by
  have hlog := hl.logged hg
  refine ⟨_, hlog.mono h.grows, .inl ?_⟩
  have hslot : i.1.slot < t.count := heq ▸ hl.1
  rw [heq, h.epoch hslot]
  omega

theorem TableRelinked.live (h : TableRelinked t t') (hl : Live t j) : Live t' j := by
  obtain ⟨n, hn⟩ := h.slots j.1.slot
  exact ⟨by rw [h.count]; exact hl.1, by rw [hn]; exact hl.2.1, by rw [hn]; exact hl.2.2⟩

section Steps

variable [DecidableEq Obj]

/-- What one operation preserves and does, for every handle there is. -/
structure StepSpec (cfg : Config) (t : Table Obj) (op : Op Obj) : Prop where
  good : ∃ fl', Good cfg (step cfg t op).1 fl'
  grows : Grows cfg t (step cfg t op).1
  issues : ∀ i, (step cfg t op).2 = some i → Issues cfg t (step cfg t op).1 i
  live : ∀ j, Live t j → (Ends cfg t op j → Dead cfg (step cfg t op).1 j) ∧
    (¬Ends cfg t op j → Live (step cfg t op).1 j)
  dead : ∀ j, Dead cfg t j → Dead cfg (step cfg t op).1 j

variable {t : Table Obj} {fl : List Nat}

theorem step_reserve (hf : FamilyOk cfg) (h : Good cfg t fl) (object : Obj)
    (initialCapacity : Nat) (allocOk : Bool) (entropy : UInt64) :
    StepSpec cfg t (.reserve object initialCapacity allocOk entropy) := by
  obtain ⟨hgood, heff⟩ := reserve_spec hf h object initialCapacity allocOk entropy
  cases hr : (reserve cfg t object initialCapacity allocOk entropy).2 with
  | error e =>
    simp only [hr] at heff
    exact ⟨hgood, heff.grows, fun i hi => by simp [step, hr, Except.toOption] at hi,
      fun j hl => ⟨False.elim, fun _ => heff.live hl⟩, fun j hd => heff.dead hd⟩
  | ok g =>
    simp only [hr] at heff
    obtain ⟨hi, hnone⟩ := heff
    refine ⟨hgood, hi.grows, fun i hsome => ?_, fun j hl => ⟨False.elim, fun _ => hi.live_other hl ?_⟩,
      fun j hd => hi.dead hd⟩
    · simp only [step, hr, Except.toOption, Option.map_some, Option.some.injEq] at hsome
      subst hsome
      exact hi
    · -- a live handle's slot holds an object, the slot that was reserved held none
      intro heq
      have hslot : g.slot < t.count := heq ▸ hl.1
      have hobj := hl.2.2
      rw [heq, hnone hslot] at hobj
      cases hobj

theorem step_reactivate (hf : FamilyOk cfg) (h : Good cfg t fl) (slot : Nat)
    (object : Obj) (entropy : UInt64) : StepSpec cfg t (.reactivate slot object entropy) := by
  obtain ⟨hgood, heff⟩ := reactivate_spec hf h slot object entropy
  cases hr : (reactivate cfg t slot object entropy).2 with
  | error e =>
    simp only [hr] at heff
    have hrel : TableRelinked t (step cfg t (.reactivate slot object entropy)).1 := by
      show TableRelinked t (reactivate cfg t slot object entropy).1
      rw [heff]
      exact .refl t
    refine ⟨⟨fl, hgood⟩, hrel.grows, fun i hi => ?_, fun j hl => ⟨fun he => ?_, fun _ => hrel.live hl⟩,
      fun j hd => hrel.dead hd⟩
    · simp [step, hr, Except.toOption] at hi
    · have := he.2
      simp [step, hr, Except.toOption] at this
  | ok g =>
    simp only [hr] at heff
    obtain ⟨hi, hslot⟩ := heff
    refine ⟨⟨fl, hgood⟩, hi.grows, fun i hsome => ?_, fun j hl => ⟨fun he => ?_, fun he => ?_⟩, fun j hd => hi.dead hd⟩
    · simp only [step, hr, Except.toOption, Option.map_some, Option.some.injEq] at hsome
      subst hsome
      exact hi
    · exact hi.live_same h hl (he.1.symm.trans hslot.symm)
    · refine hi.live_other hl fun heq => he ⟨?_, by simp [step, hr, Except.toOption]⟩
      exact hslot.symm.trans heq.symm

theorem step_release (h : Good cfg t fl) (slot : Nat) (object : Obj)
    (generation : Nat) : StepSpec cfg t (.release slot object generation) := by
  obtain ⟨hgood, hsame | ⟨hslot, hobj, hgen, hcount, hslots⟩⟩ := release_spec h slot object generation
  · have hrel : TableRelinked t (step cfg t (.release slot object generation)).1 := by
      show TableRelinked t (release t slot object generation)
      rw [hsame.1]
      exact .refl t
    refine ⟨hgood, hrel.grows, fun i hi => (by simp [step] at hi),
      fun j hl => ⟨fun he => ?_, fun _ => hrel.live hl⟩, fun j hd => hrel.dead hd⟩
    -- the release of a live handle always matches
    obtain ⟨hs, ho, hg⟩ := he
    exact absurd ⟨hs ▸ hl.1, by rw [hs, ho]; exact hl.2.2, by rw [hs, hg]; exact hl.2.1.symm⟩ hsame.2
  · have hgrows : Grows cfg t (release t slot object generation) := by
      refine ⟨Nat.le_of_eq hcount.symm, fun s _ => ?_⟩
      rw [hslots s]
      split
      · rename_i heq
        subst heq
        exact ⟨Nat.le_refl _, fun _ => rfl⟩
      · exact ⟨Nat.le_refl _, fun _ => rfl⟩
    refine ⟨hgood, hgrows, fun i hi => (by simp [step] at hi), fun j hl => ⟨fun he => ?_, fun he => ?_⟩, fun j hd => ?_⟩
    · refine ⟨_, (hl.logged h).mono hgrows, .inr ?_⟩
      show ((release t slot object generation).slots j.1.slot).object = none
      rw [hslots, if_pos he.1.symm]
    · have hne : j.1.slot ≠ slot := fun heq => by
        have hobj' := hl.2.2
        have hgen' := hl.2.1
        rw [heq] at hobj' hgen'
        rw [hobj] at hobj'
        exact he ⟨heq.symm, Option.some.inj hobj', by rw [hgen', hgen]⟩
      refine ⟨?_, ?_, ?_⟩
      · show j.1.slot < (release t slot object generation).count
        rw [hcount]; exact hl.1
      · show j.1.generation = ((release t slot object generation).slots j.1.slot).generation
        rw [hslots, if_neg hne]; exact hl.2.1
      · show ((release t slot object generation).slots j.1.slot).object = some j.2
        rw [hslots, if_neg hne]; exact hl.2.2
    · refine hd.mono hgrows fun _ hnone => ?_
      show ((release t slot object generation).slots j.1.slot).object = none
      rw [hslots]
      split
      · rfl
      · exact hnone

/-- **One operation**, whichever it is. -/
theorem step_spec (hf : FamilyOk cfg) (h : Good cfg t fl) (op : Op Obj) : StepSpec cfg t op := by
  cases op with
  | reserve object initialCapacity allocOk entropy => exact step_reserve hf h object initialCapacity allocOk entropy
  | reactivate slot object entropy => exact step_reactivate hf h slot object entropy
  | release slot object generation => exact step_release h slot object generation

/-! ## Sequences of operations -/

theorem after_append (t : Table Obj) (ops ops' : List (Op Obj)) :
    after cfg t (ops ++ ops') = after cfg (after cfg t ops) ops' := by
  induction ops generalizing t with
  | nil => rfl
  | cons op ops ih => exact ih _

section

variable (hf : FamilyOk cfg)

include hf

theorem after_good (h : Good cfg t fl) (ops : List (Op Obj)) : ∃ fl', Good cfg (after cfg t ops) fl' := by
  induction ops generalizing t fl with
  | nil => exact ⟨fl, h⟩
  | cons op ops ih =>
    obtain ⟨fl', h'⟩ := (step_spec hf h op).good
    exact ih h'

/-- No handle is issued twice, nor one that was logged before. -/
theorem issues_fresh (h : Good cfg t fl) (ops : List (Op Obj)) :
    ((issues cfg t ops).map Prod.fst).Nodup ∧ ∀ i ∈ issues cfg t ops, ¬Logged cfg t i.1 := by
  induction ops generalizing t fl with
  | nil => exact ⟨List.nodup_nil, by simp [issues]⟩
  | cons op ops ih =>
    have hs := step_spec hf h op
    obtain ⟨fl', h'⟩ := hs.good
    obtain ⟨hnd, hnew⟩ := ih h'
    have hnew' : ∀ i ∈ issues cfg (step cfg t op).1 ops, ¬Logged cfg t i.1 := by
      rintro i hi ⟨e, hlog⟩
      exact hnew i hi ⟨e, hlog.mono hs.grows⟩
    cases hr : (step cfg t op).2 with
    | none =>
      simp only [issues, hr, Option.toList_none, List.nil_append]
      exact ⟨hnd, hnew'⟩
    | some i =>
      have hi := hs.issues i hr
      simp only [issues, hr, Option.toList_some, List.singleton_append, List.map_cons, List.nodup_cons]
      refine ⟨⟨fun hm => ?_, hnd⟩, fun j hj => ?_⟩
      · obtain ⟨j, hj, heq⟩ := List.mem_map.mp hm
        exact hnew j hj (by rw [heq]; exact ⟨_, hi.live.logged h'⟩)
      · rcases List.mem_cons.mp hj with rfl | hj
        · exact hi.not_logged h'
        · exact hnew' j hj

theorem dead_after (h : Good cfg t fl) {i : Issue Obj}
    (hd : Dead cfg t i) (ops : List (Op Obj)) : Dead cfg (after cfg t ops) i := by
  induction ops generalizing t fl with
  | nil => exact hd
  | cons op ops ih =>
    have hs := step_spec hf h op
    obtain ⟨fl', h'⟩ := hs.good
    exact ih h' (hs.dead i hd)

/-- A live handle lives until an operation ends it. -/
theorem live_after (h : Good cfg t fl) {i : Issue Obj} (hl : Live t i) (ops : List (Op Obj)) :
    (¬EndsIn cfg t ops i → Live (after cfg t ops) i) ∧ (EndsIn cfg t ops i → Dead cfg (after cfg t ops) i) := by
  induction ops generalizing t fl with
  | nil => exact ⟨fun _ => hl, False.elim⟩
  | cons op ops ih =>
    have hs := step_spec hf h op
    obtain ⟨fl', h'⟩ := hs.good
    by_cases he : Ends cfg t op i
    · exact ⟨fun hn => absurd (Or.inl he) hn, fun _ => dead_after hf h' ((hs.live i hl).1 he) ops⟩
    · obtain ⟨hlive, hdead⟩ := ih h' ((hs.live i hl).2 he)
      exact ⟨fun hn => hlive fun hin => hn (Or.inr hin), fun hin => hdead (hin.resolve_left he)⟩

end

theorem step_bad_family (hf : ¬FamilyOk cfg) (t : Table Obj) (op : Op Obj) : (step cfg t op).2 = none := by
  unfold FamilyOk at hf
  rw [not_or] at hf
  have hbad : (decide (cfg.family ≠ 0) && !familyValid cfg.family) = true := by simp [hf.1, hf.2]
  cases op with
  | reserve object initialCapacity allocOk entropy => simp only [step, reserve, hbad, if_true]; rfl
  | reactivate slot object entropy => simp only [step, reactivate, hbad, Bool.or_true, if_true]; rfl
  | release slot object generation => rfl

theorem issues_bad_family (hf : ¬FamilyOk cfg) (t : Table Obj) (ops : List (Op Obj)) : issues cfg t ops = [] := by
  induction ops generalizing t with
  | nil => rfl
  | cons op ops ih => simp [issues, step_bad_family hf, ih]

/-- **Handles are fresh and exact.** Along every sequence of operations on an empty table no two issued handles are equal;
and a handle issued at any point resolves, after any further operations, to the object it was issued for as long as none
of them released or reactivated that object, and to nothing once one of them did. -/
theorem issued_handles_fresh_and_exact (cfg : Config) (ops : List (Op Obj)) :
    ((issues cfg Table.empty ops).map Prod.fst).Nodup ∧
      ∀ before op later i, ops = before ++ op :: later → (step cfg (after cfg Table.empty before) op).2 = some i →
        (¬EndsIn cfg (after cfg Table.empty (before ++ [op])) later i →
          resolve (after cfg Table.empty ops) i.1 = some i.2) ∧
        (EndsIn cfg (after cfg Table.empty (before ++ [op])) later i →
          resolve (after cfg Table.empty ops) i.1 = none) := by
  by_cases hf : FamilyOk cfg
  · refine ⟨(issues_fresh hf empty_good ops).1, ?_⟩
    rintro before op later i rfl hissue
    obtain ⟨fl, h⟩ := after_good hf empty_good before
    have hs := step_spec hf h op
    obtain ⟨fl', h'⟩ := hs.good
    have hmid : after cfg Table.empty (before ++ [op]) = (step cfg (after cfg Table.empty before) op).1 := by
      rw [after_append]; rfl
    have hend : after cfg Table.empty (before ++ op :: later) =
        after cfg (step cfg (after cfg Table.empty before) op).1 later := by
      rw [after_append]; rfl
    obtain ⟨fl'', h''⟩ := after_good hf h' later
    obtain ⟨hlive, hdead⟩ := live_after hf h' (hs.issues i hissue).live later
    rw [hmid, hend]
    exact ⟨fun hn => (hlive hn).resolve h'', fun hin => (hdead hin).resolve h''⟩
  · refine ⟨by rw [issues_bad_family hf]; exact List.nodup_nil, ?_⟩
    intro before op later i _ hissue
    rw [step_bad_family hf] at hissue
    cases hissue

/-- A channel handle resolves to its object after it is reserved and to nothing after it is released. -/
theorem reserved_channel_handle_resolves :
    (step ⟨4, 0x1000⟩ (Table.empty : Table Nat) (.reserve 7 8 true 42)).2 = some (⟨0, 77636788⟩, 7) ∧
      resolve (after ⟨4, 0x1000⟩ (Table.empty : Table Nat) [.reserve 7 8 true 42]) ⟨0, 77636788⟩ = some 7 ∧
      resolve (after ⟨4, 0x1000⟩ (Table.empty : Table Nat) [.reserve 7 8 true 42, .release 0 7 77636788])
        ⟨0, 77636788⟩ = none := by
  have hissue : (step ⟨4, 0x1000⟩ (Table.empty : Table Nat) (.reserve 7 8 true 42)).2 = some (⟨0, 77636788⟩, 7) := by
    decide +kernel
  refine ⟨hissue, ?_, ?_⟩
  · exact ((issued_handles_fresh_and_exact _ _).2 [] _ [] _ rfl hissue).1 id
  · exact ((issued_handles_fresh_and_exact _ _).2 [] _ [_] _ rfl hissue).2 (.inl ⟨rfl, rfl, rfl⟩)

end Steps

end Llam.PublicSlot

import Llam.Deque.Refine

/-!
# Safety of the work-stealing deque

`deque_safety` reads the simulation off in every reachable state: every push is returned at most once, lies between `top`
and `bottom`, or is in the hands of a pop that has not returned; and no slot of an earlier lap is returned. It is about runs
in which no thief is overtaken by a whole turn of the index space between its load of `top` and its compare-and-swap.
`stale_steal_returns_twice` is the run in which one is.
-/

namespace Llam.Deque

open Llam.Lib Function

variable {T α : Type} [DecidableEq T] {cap : Capacity} {s s' : State T α} {items init : List (Entry α)}
  {held : Option (Taken α)} {e : Entry α}

/-! ## Where an entry is -/

/-- The entry lies in the logical range from `top` to `bottom`. -/
def State.inRange (cap : Nat) (s : State T α) (e : Entry α) : Prop :=
  distanceIsNegative (s.bottom - s.top) = false ∧
    ∃ n < (s.bottom - s.top).toNat, s.buffer (slot cap (s.top + BitVec.ofNat 64 n)) = some e

/-- The entry that a pop in progress has taken out of the range and not returned, unless a thief has it. -/
def State.popping (cap : Nat) (s : State T α) : Option (Entry α) :=
  match s.owner with
  | .popTop bottom => if s.top = bottom + 1 then none else s.buffer (slot cap bottom)
  | .popSlot bottom top => if bottom = top ∧ s.top ≠ top then none else s.buffer (slot cap bottom)
  | .popCas top entry => if s.top = top then entry else none
  | .popFinish _ result => result.map Prod.snd
  | _ => none

theorem Sim.item_slot (h : Sim cap s items held) {n : Nat} (hn : items[n]? = some e) :
    s.buffer (slot cap.value (s.top + BitVec.ofNat 64 n)) = some e := by
  have hlt : n < items.length := (List.getElem?_eq_some_iff.mp hn).1
  have hslot := congrArg (·[n]?) h.slots
  simp only [Ring.contents, List.getElem?_map, List.getElem?_range hlt, hn, Option.map_some, Option.some.injEq] at hslot
  rw [h.top, ← BitVec.ofNat_add, slot_ofNat, hslot]

/-- The items below `bottom` are those in the range. -/
theorem Sim.inRange_iff {rest : List (Entry α)} (h : Sim cap s (init ++ rest) held)
    (hb : s.bottom = BitVec.ofNat 64 (s.topAt + init.length)) : s.inRange cap.value e ↔ e ∈ init := by
  have hbound := h.bounded
  have hcap := cap.belowSignBit
  rw [List.length_append] at hbound
  have hdist : (s.bottom - s.top).toNat = init.length := by
    rw [hb, h.top]
    exact WrapIndex.ofNat_add_sub _ (by omega)
  have hneg : distanceIsNegative (s.bottom - s.top) = false := by
    rw [← Bool.not_eq_true, distanceIsNegative_iff, hdist]
    omega
  have hat : ∀ n < init.length, s.buffer (slot cap.value (s.top + BitVec.ofNat 64 n)) = init[n]? := by
    intro n hn
    have hitem : (init ++ rest)[n]? = some init[n] := by
      rw [List.getElem?_append_left hn, List.getElem?_eq_getElem hn]
    rw [h.item_slot hitem, List.getElem?_eq_getElem hn]
  unfold State.inRange
  rw [hdist, List.mem_iff_getElem?]
  constructor
  · rintro ⟨-, n, hn, hslot⟩
    exact ⟨n, (hat n hn).symm.trans hslot⟩
  · rintro ⟨n, hslot⟩
    have hn := (List.getElem?_eq_some_iff.mp hslot).1
    exact ⟨hneg, n, hn, (hat n hn).trans hslot⟩

/-- Nothing is in the range while `bottom` is one below `top`. -/
theorem Sim.not_inRange (h : Sim cap s [] held) (hb : s.bottom + 1 = s.top) : ¬ s.inRange cap.value e := by
  rintro ⟨hneg, -⟩
  rcases h.below_limit (hb.trans h.top) with ⟨-, -, hneg'⟩ | ⟨n, hlen, -⟩
  · rw [hneg] at hneg'
    cases hneg'
  · cases hlen

theorem Sim.inRange_all (h : Sim cap s items held) (hb : s.bottom = s.limit items) :
    s.inRange cap.value e ↔ e ∈ items := by
  have h' : Sim cap s (items ++ []) held := by rwa [List.append_nil]
  exact h'.inRange_iff hb

/-- While `bottom` is lowered, the last item is not in the range, but in the slot of `bottom`. -/
theorem Sim.lowered {last : Entry α} (h : Sim cap s (init ++ [last]) held) (hb : s.bottom + 1 = s.limit (init ++ [last])) :
    (s.inRange cap.value e ↔ e ∈ init) ∧ s.buffer (slot cap.value s.bottom) = some last := by
  have hbottom : s.bottom = BitVec.ofNat 64 (s.topAt + init.length) := by
    rw [← BitVec.add_sub_cancel s.bottom 1, hb, State.limit, List.length_append, List.length_singleton, ← Nat.add_assoc,
      WrapIndex.ofNat_succ_sub_one]
  refine ⟨h.inRange_iff hbottom, ?_⟩
  have hitem : (init ++ [last])[init.length]? = some last := by simp
  rw [hbottom, BitVec.ofNat_add, ← h.top]
  exact h.item_slot hitem

theorem succ_ne_self (b : Index) : b + 1 ≠ b := by
  bv_omega

/-- An item is in the range, or the pop in progress has lowered `bottom` below it. -/
theorem Sim.locate (h : Sim cap s items held) :
    s.inRange cap.value e ∨ s.popping cap.value = some e ↔ e ∈ items ∨ held.map Prod.snd = some e := by
  have ho := h.owner
  have stable (hb : s.bottom = s.limit items) (hheld : held = none) (hnone : s.popping cap.value = none) :
      s.inRange cap.value e ∨ s.popping cap.value = some e ↔ e ∈ items ∨ held.map Prod.snd = some e := by
    rw [h.inRange_all hb, hheld, hnone]
    simp
  have gone (hb : s.bottom + 1 = s.top) (hnil : items = []) (hpop : s.popping cap.value = held.map Prod.snd) :
      s.inRange cap.value e ∨ s.popping cap.value = some e ↔ e ∈ items ∨ held.map Prod.snd = some e := by
    subst hnil
    rw [hpop]
    simp [h.not_inRange hb]
  have lowered {init : List (Entry α)} {last : Entry α} (hitems : items = init ++ [last]) (hheld : held = none)
      (hb : s.bottom + 1 = s.limit items) (hpop : s.popping cap.value = s.buffer (slot cap.value s.bottom)) :
      s.inRange cap.value e ∨ s.popping cap.value = some e ↔ e ∈ items ∨ held.map Prod.snd = some e := by
    subst hitems
    obtain ⟨hrange, hslot⟩ := h.lowered (e := e) hb
    rw [hrange, hpop, hslot, hheld]
    simp [eq_comm]
  cases hpc : s.owner <;> simp only [OwnerSim, hpc] at ho
  case idle => exact stable ho.1 ho.2 (by simp only [State.popping, hpc])
  case pushTop | pushSlot | pushBottom | popStore => exact stable ho.1 ho.2.1 (by simp only [State.popping, hpc])
  case popTop b =>
    obtain ⟨hb, hheld, hlimit⟩ := ho
    rcases h.below_limit hlimit with ⟨hnil, htop, -⟩ | ⟨n, hlen, -⟩
    · refine gone (hb ▸ htop) hnil ?_
      simp only [State.popping, hpc, htop, if_true, hheld, Option.map_none]
    obtain rfl | ⟨init, last, hconcat⟩ := List.eq_nil_or_concat items
    · cases hlen
    refine lowered (hconcat.trans List.concat_eq_append) hheld (hb ▸ hlimit) ?_
    have hne : s.top ≠ b + 1 := by
      intro htop
      have hdistance := h.distance
      rw [← hlimit, ← htop, BitVec.sub_self, hlen] at hdistance
      cases hdistance
    simp only [State.popping, hpc, hne, if_false, hb]
  case popEmpty => exact gone (ho.1.trans ho.2.2.1) ho.2.2.2 (by simp only [State.popping, hpc, ho.2.1, Option.map_none])
  case popSlot b top =>
    obtain ⟨hb, ⟨hbt, hheld, ⟨htop, hlen⟩ | ⟨htop, hnil⟩⟩ | ⟨hne, hlimit, x, hheld, hslot, -⟩⟩ := ho
    · obtain ⟨x, hx⟩ := List.length_eq_one_iff.mp hlen
      refine lowered (hx.trans (List.nil_append _).symm) hheld ?_ ?_
      · rw [State.limit, hlen, ← WrapIndex.ofNat_succ, ← h.top, htop, hb, hbt]
      · simp only [State.popping, hpc, htop, hb, ne_eq, not_true_eq_false, and_false, if_false]
    · refine gone (by rw [hb, hbt, htop]) hnil ?_
      have hpopping : b = top ∧ s.top ≠ top := ⟨hbt, htop ▸ succ_ne_self top⟩
      simp only [State.popping, hpc, hpopping, ne_eq, not_false_eq_true, and_self, if_true, hheld, Option.map_none]
    · rw [h.inRange_all (hb.trans hlimit)]
      have hpopping : ¬ (b = top ∧ s.top ≠ top) := fun hc => hne hc.1
      have hentry : s.buffer (slot cap.value b) = some x := by rw [hlimit, State.limit, slot_ofNat, hslot]
      simp only [State.popping, hpc, hpopping, if_false, hheld, hentry, Option.map_some]
  case popCas top entry =>
    obtain ⟨hb, hheld, ⟨htop, x, rfl, hitems⟩ | ⟨htop, hnil⟩⟩ := ho
    · subst hitems
      have hlimit : s.bottom + 1 = s.limit ([] ++ [x]) := by
        rw [List.nil_append, State.limit, List.length_singleton, ← WrapIndex.ofNat_succ, ← h.top, htop, hb]
      refine lowered (List.nil_append _).symm hheld hlimit ?_
      have h' : Sim cap s ([] ++ [x]) held := h
      rw [(h'.lowered (e := x) hlimit).2]
      simp only [State.popping, hpc, htop, if_true]
    · refine gone (by rw [hb, htop]) hnil ?_
      have hne : s.top ≠ top := htop ▸ succ_ne_self top
      simp only [State.popping, hpc, hne, if_false, hheld, Option.map_none]
  case popFinish top result =>
    obtain ⟨hb, htop, hnil, hheld⟩ := ho
    refine gone (by rw [hb, htop]) hnil ?_
    simp only [State.popping, hpc, hheld]

/-! ## Safety -/

/-- What holds of the deque in every reachable state. -/
structure Safe (cap : Nat) (s : State T α) : Prop where
  /-- pushes are told apart by their numbers -/
  numbered : s.pushed.map Entry.number = List.range s.pushed.length
  /-- no push is returned twice -/
  once : (s.returned.map fun x => x.2.number).Nodup
  /-- what an operation returns was pushed to the very position it has consumed, not to its slot in an earlier lap -/
  genuine : ∀ x ∈ s.returned, x.2 ∈ s.pushed ∧ x.2.position = x.1
  /-- no push is lost -/
  kept : ∀ e ∈ s.pushed, e ∈ s.returned.map Prod.snd ∨ s.inRange cap e ∨ s.popping cap = some e
  /-- what is in the range or in the hands of a pop is not returned yet -/
  waiting : ∀ e, s.inRange cap e ∨ s.popping cap = some e → e ∈ s.pushed ∧ e ∉ s.returned.map Prod.snd
  bounded : s.bottom + 1 = s.top ∨ (s.bottom - s.top).toNat ≤ cap

theorem Sim.bounded_range (h : Sim cap s items held) : s.bottom + 1 = s.top ∨ (s.bottom - s.top).toNat ≤ cap.value := by
  have hbound := h.bounded
  rcases h.bottom with hb | hb
  · rw [hb, h.distance]
    exact .inr hbound
  rcases h.below_limit hb with ⟨-, htop, -⟩ | ⟨n, hlen, -, hdist, -⟩
  · exact .inl htop
  · exact .inr (by omega)

theorem Sim.safe (h : Sim cap s items held) (hok : (s.spec items held).Ok cap.value) : Safe cap.value s := by
  have hnumbers : s.pushed.map Entry.number = List.range s.pushed.length := hok.numbers
  have haccount : s.pushed.Perm ((s.returned ++ held.toList).map Prod.snd ++ items) := hok.account
  rw [List.map_append, List.append_assoc] at haccount
  have hnodup : ((s.returned.map Prod.snd ++ (held.toList.map Prod.snd ++ items)).map Entry.number).Nodup := by
    rw [← (haccount.map Entry.number).nodup_iff, hnumbers]
    exact List.nodup_range
  rw [List.map_append] at hnodup
  obtain ⟨hreturned, -, hdisjoint⟩ := List.nodup_append.mp hnodup
  -- the part of the account that is not returned, by where it is
  have hopen : ∀ e, e ∈ held.toList.map Prod.snd ++ items ↔ s.inRange cap.value e ∨ s.popping cap.value = some e := by
    intro e
    rw [h.locate, List.mem_append, or_comm]
    cases held <;> simp [eq_comm]
  refine ⟨hnumbers, ?_, fun x hx => ⟨?_, ?_⟩, fun e he => ?_, fun e he => ⟨?_, fun hret => ?_⟩, h.bounded_range⟩
  · rw [List.map_map] at hreturned
    exact hreturned
  · exact haccount.mem_iff.mpr (List.mem_append_left _ (List.mem_map_of_mem hx))
  · exact hok.taken x (List.mem_append_left _ hx)
  · rcases List.mem_append.mp (haccount.mem_iff.mp he) with he | he
    · exact .inl he
    · exact .inr ((hopen e).mp he)
  · exact haccount.mem_iff.mpr (List.mem_append_right _ ((hopen e).mpr he))
  · exact hdisjoint _ (List.mem_map_of_mem hret) _ (List.mem_map_of_mem ((hopen e).mpr he)) rfl

/-- **Deque safety**: in every interleaving of one owner and any number of thieves in which each compare-and-swap of a
thief comes within one turn of the index space after its load of `top`. -/
theorem deque_safety (cap : Capacity) (start : Index)
    (hr : Reachable (guarded withinTurn (step cap.value)) (State.init T α start) s) : Safe cap.value s := by
  obtain ⟨items, held, hsim, hok⟩ := reachable_sim hr
  exact hsim.safe hok

/-- Two pushes at the end of the index space; the first is stolen while a pop of the second has lowered `bottom`. -/
theorem deque_safety_wrapping : ∃ s : State Bool Nat,
    s.returned.map (fun x => x.2.task) = [7] ∧ s.popping normQueueCap.value = some ⟨1, 2 ^ 64, 8⟩ ∧
      Safe normQueueCap.value s := by
  obtain ⟨s, hr, hs⟩ := exists_reachable (guarded withinTurn (step normQueueCap.value))
    (State.init Bool Nat (BitVec.ofNat 64 (2 ^ 64 - 1)))
    (fun s => (s.returned.map (fun x => x.2.task), s.popping normQueueCap.value))
    (b := ([7], some ⟨1, 2 ^ 64, 8⟩))
    [.push 7, .owner, .owner, .owner, .push 8, .owner, .owner, .owner, .thief true, .thief true, .thief true,
      .pop, .owner, .thief true] (by decide)
  exact ⟨s, congrArg Prod.fst hs, congrArg Prod.snd hs, deque_safety normQueueCap _ hr⟩

/-! ## A thief that is overtaken by a whole turn -/

/-- The deque is empty at position `n`, and the thief is about to compare `top` with 0 for the entry it read there. -/
def spun (stale : Entry Nat) (n : Nat) (buffer : Nat → Option (Entry Nat)) (pushed : List (Entry Nat))
    (returned : List (Taken Nat)) : State Unit Nat where
  top := BitVec.ofNat 64 n
  bottom := BitVec.ofNat 64 n
  buffer := buffer
  owner := .idle
  thieves := fun _ => .cas 0 0 stale
  topAt := n
  pushed := pushed
  returned := returned

/-- The owner pushes a task and pops it. -/
def pushPop : List (Action Unit Nat) := [.push 0, .owner, .owner, .owner, .pop, .owner, .owner, .owner, .owner, .owner]

theorem spun_pushPop (stale : Entry Nat) (n : Nat) (buffer : Nat → Option (Entry Nat)) (pushed : List (Entry Nat))
    (returned : List (Taken Nat)) : ∃ buffer' pushed' more,
    run (step normQueueCap.value) (spun stale n buffer pushed returned) pushPop =
      some (spun stale (n + 1) buffer' pushed' (returned ++ more)) := by
  have hnegative : distanceIsNegative 0#64 = false := by decide
  have hroom : ¬ normQueueCap.value ≤ 0 := by decide
  have hsub : BitVec.ofNat 64 n + 1 - 1 = BitVec.ofNat 64 n := BitVec.add_sub_cancel _ _
  have hzero : (0#64).toNat = 0 := rfl
  have hself : (0#64 = (0 : BitVec 64)) = True := eq_self _
  let entry : Entry Nat := ⟨pushed.length, n, 0⟩
  refine ⟨update buffer (slot normQueueCap.value (BitVec.ofNat 64 n)) (some entry), pushed ++ [entry],
    [(n, entry)], ?_⟩
  simp only [run, pushPop, spun, step, ownerStep, refusesPush, State.finish, State.advance, State.position, hnegative,
    hroom, Option.bind_some, BitVec.sub_self, hsub, hzero, hself, Bool.false_or, decide_false, Bool.false_eq_true,
    if_false, if_true]
  rw [update_self, WrapIndex.ofNat_succ]
  rfl

/-- However often the owner pushes and pops, the thief still holds what it read, and nothing returned is forgotten. -/
theorem spun_run (stale : Entry Nat) (n : Nat) (buffer : Nat → Option (Entry Nat)) (pushed : List (Entry Nat))
    (returned : List (Taken Nat)) : ∀ k, ∃ as buffer' pushed' more,
    run (step normQueueCap.value) (spun stale n buffer pushed returned) as =
      some (spun stale (n + k) buffer' pushed' (returned ++ more))
  | 0 => ⟨[], buffer, pushed, [], by rw [List.append_nil]; rfl⟩
  | k + 1 => by
    obtain ⟨as, buffer', pushed', more, has⟩ := spun_run stale n buffer pushed returned k
    obtain ⟨buffer'', pushed'', more', hturn⟩ := spun_pushPop stale (n + k) buffer' pushed' (returned ++ more)
    rw [List.append_assoc] at hturn
    exact ⟨as ++ pushPop, buffer'', pushed'', more ++ more', run_append.mpr ⟨_, has, hturn⟩⟩

/-- The thief has read the only entry, and the owner has popped it. -/
theorem spun_first : run (step normQueueCap.value) (State.init Unit Nat 0)
    [.push 5, .owner, .owner, .owner, .thief (), .thief (), .thief (), .pop, .owner, .owner, .owner, .owner, .owner] =
      some (spun ⟨0, 0, 5⟩ 1 (update (fun _ => none) 0 (some ⟨0, 0, 5⟩)) [⟨0, 0, 5⟩] [(0, ⟨0, 0, 5⟩)]) := by
  rfl

/-- A thief loads `top` and the only entry and stops; the owner pops that entry and goes once around the index space; the
compare-and-swap of the thief then succeeds, and the entry is returned for the second time. -/
theorem stale_steal_returns_twice : ∃ s : State Unit Nat,
    Reachable (step normQueueCap.value) (State.init Unit Nat 0) s ∧ ¬ (s.returned.map fun x => x.2.number).Nodup := by
  obtain ⟨as, buffer, pushed, more, has⟩ := spun_run ⟨0, 0, 5⟩ 1 (update (fun _ => none) 0 (some ⟨0, 0, 5⟩))
    [⟨0, 0, 5⟩] [(0, ⟨0, 0, 5⟩)] (2 ^ 64 - 1)
  let last : State Unit Nat := spun ⟨0, 0, 5⟩ (1 + (2 ^ 64 - 1)) buffer pushed ([(0, ⟨0, 0, 5⟩)] ++ more)
  have hreach : Reachable (step normQueueCap.value) (State.init Unit Nat 0) last :=
    ⟨_, run_append.mpr ⟨_, spun_first, has⟩⟩
  have hcas : thiefStep normQueueCap.value last () =
      { last.advance.setThief () .idle with returned := last.returned ++ [(last.topAt, ⟨0, 0, 5⟩)] } := by
    -- a whole turn after 0 the word is 0 again
    have hturn : BitVec.ofNat 64 (1 + (2 ^ 64 - 1)) = 0 := by decide
    have htop : last.top = 0 := hturn
    unfold thiefStep
    show (if last.top = 0 then _ else _) = _
    rw [if_pos htop]
  refine ⟨_, hreach.tail (a := .thief ()) rfl, ?_⟩
  rw [hcas]
  simp [last, spun]

end Llam.Deque

import Llam.Timer.Fire

/-!
# One pass over expired timers

Every step of a pass and of the others keeps the invariant (`move_sound`), so that `expired_timers_contract` holds in
every interleaving.
-/

namespace Llam.Timer

open Llam.Lib Function

section steps

variable {P : Type} [DecidableEq P] {s s' : Shard P} {p : P} {x x' : Pass}

/-! ## A step of a pass -/

theorem setPass_self : (s.setPass p x).pass p = x := update_self _ _ _

theorem setPass_other {q : P} (hq : q ≠ p) : (s.setPass p x).pass q = s.pass q := update_of_ne hq _ _

/-- The fields of a pass that are set once. -/
structure SamePass (x x' : Pass) : Prop where
  count : x'.count = x.count
  before : x'.before = x.before
  now : x'.now = x.now
  refused : x'.refused = x.refused
  popped : x'.popped = x.popped
  since : x'.since = x.since

/-- A pass moves on: it keeps timers or gives them up, and ends waits by timers that it had to resolve. -/
structure GoesOn (m : Memory) (x x' : Pass) : Prop where
  same : SamePass x x'
  busy : x.stage ≠ .idle ∧ x'.stage ≠ .idle
  drained : x'.stage.late = true → x'.expired = []
  lists : x'.handed ++ x'.expired = x.handed ++ x.expired
  handed : ∀ y ∈ x.handed, y ∈ x'.handed
  flight : x'.flight.Subperm x.flight
  pending : ∀ y ∈ x'.pending, y ∈ x'.flight ∧ y ∈ x.pending
  ended : ∀ e ∈ x'.ended, e ∈ x.ended ∨ e.1 ∈ x'.handed ∧ e.1 ∈ x.flight ∧ e.2 = m.gen e.1
  once : (x'.ended.map Prod.fst ++ x'.pending).Subperm (x.ended.map Prod.fst ++ x.pending)
  reasoned : ∀ y r, x'.stage = .reasoned y r → (m.owner y).waitReason = r
  acting : ∀ y, x'.stage = .acting y .SLEEP → (m.owner y).waitGeneration = m.gen y ∧ (m.owner y).waitReason = .SLEEP

theorem nodup_of_subperm {l l' : List Ptr} (h : l.Subperm l') (hnodup : l'.Nodup) : l.Nodup := by
  obtain ⟨l'', hperm, hsub⟩ := h
  exact hperm.nodup_iff.mp (hsub.nodup hnodup)

variable {m : Memory} {g : UInt64} {timer : Ptr} {stage : Stage} {rest : List Ptr}

theorem PassOk.goesOn {armed : List Ptr} {net : UInt32} (h : PassOk m armed net x) (hx : GoesOn m x x') :
    PassOk m armed net x' := by
  have hsame := hx.same
  constructor
  · rw [if_neg hx.busy.2, hsame.count, h.net, if_neg hx.busy.1]
  · exact fun hidle => absurd hidle hx.busy.2
  · exact hx.drained
  · rw [hsame.popped, hx.lists]
    exact h.popped
  · rw [hsame.popped]
    exact h.poppedNodup
  · rw [hsame.popped, hsame.now]
    exact h.due
  · rw [hsame.popped, hsame.before]
    exact h.before
  · rw [hsame.popped]
    exact fun y hy => h.flown y (hx.flight.subset hy)
  · exact fun y hy => (hx.pending y hy).1
  · rw [hsame.popped]
    intro e he
    rcases hx.ended e he with hold | ⟨hmem, hflight, hgen⟩
    · obtain ⟨hmem, hpopped⟩ := h.ended e hold
      exact ⟨hx.handed _ hmem, hpopped⟩
    · obtain ⟨q, hq, htimer, hgeneration⟩ := h.flown e.1 hflight
      exact ⟨hmem, q, hq, htimer, hgeneration.trans hgen.symm⟩
  · exact nodup_of_subperm hx.once h.once
  · rw [hsame.refused, hsame.before, hsame.since, hsame.now]
    exact h.left
  · exact fun y r hstage _ => hx.reasoned y r hstage
  · exact hx.acting

theorem Sound.goesOn (h : Sound s) (hx : GoesOn s.mem (s.pass p) x') : Sound (s.setPass p x') :=
  h.setPass (fun _ hy => hx.flight.subset hy) (nodup_of_subperm hx.flight (h.timers.nodup p))
    (fun y hy => (hx.pending y hy).2) ((h.passes p).goesOn hx)

/-- A stage that reads nothing. -/
theorem GoesOn.plain (hsame : SamePass x x') (hbusy : x.stage ≠ .idle ∧ x'.stage ≠ .idle)
    (hdrained : x'.stage.late = true → x'.expired = [])
    (hlists : x'.handed ++ x'.expired = x.handed ++ x.expired) (hhanded : ∀ y ∈ x.handed, y ∈ x'.handed)
    (hflight : x'.flight.Subperm x.flight) (hpending : x'.pending.Subperm x.pending)
    (hsub : ∀ y ∈ x'.pending, y ∈ x'.flight) (hended : x'.ended = x.ended)
    (hstage : ∀ y r, x'.stage ≠ .reasoned y r ∧ x'.stage ≠ .acting y r) : GoesOn m x x' where
  same := hsame
  busy := hbusy
  drained := hdrained
  lists := hlists
  handed := hhanded
  flight := hflight
  pending := fun y hy => ⟨hsub y hy, hpending.subset hy⟩
  ended := fun e he => .inl (hended ▸ he)
  once := by
    rw [hended]
    exact (List.Subperm.refl _).append hpending
  reasoned := fun y r h => absurd h (hstage y r).1
  acting := fun y h => absurd h (hstage y _).2

/-! ## A timer ends the wait of its task -/

theorem lt_next (h : g ≠ noGeneration) : g < g + 1 := by
  have hne : g.toNat ≠ 18446744073709551615 := fun heq => h (UInt64.toNat_inj.mp heq)
  have hlt := g.toNat_lt
  rw [UInt64.lt_iff_toNat_lt, UInt64.toNat_add]
  simp only [UInt64.reduceToNat]
  omega

/-- A task whose wait is over. -/
def Task.over (t : Task) (generation : UInt64) : Task := { t with state := .RUNNABLE, waitGeneration := generation }

/-- The wait of a timer that no pass has to resolve any more is over, and cleared or not. -/
theorem Sound.endWait (h : Sound s) (hflight : timer ∈ (s.pass p).flight)
    (hdone : ∀ q, timer ∉ (s.pass q).pending) (hmatch : (s.mem.owner timer).waitGeneration = s.mem.gen timer)
    (hg : g = (s.mem.owner timer).waitGeneration ∨ g = (s.mem.owner timer).waitGeneration + 1) :
    Sound { s with mem := s.mem.setTask (s.mem.node timer).task ((s.mem.owner timer).over g) } := by
  have hlive : s.Live timer := .inr ⟨p, hflight⟩
  have hnext : (s.mem.owner timer).waitGeneration < (s.mem.owner timer).waitGeneration + 1 := by
    apply lt_next
    rw [hmatch]
    exact (h.timers.owned timer hlive).2.2.1
  have hle : (s.mem.owner timer).waitGeneration ≤ g := by
    rcases hg with rfl | rfl
    · exact Std.le_refl _
    · exact Std.le_of_lt hnext
  -- the task has no other timer for this wait
  have honly : ∀ y, s.Live y → (s.mem.node y).task = (s.mem.node timer).task →
      (s.mem.owner timer).waitGeneration = s.mem.gen y → y = timer :=
    fun y hy hown hgen => h.timers.unique y timer hy hlive hown (by rw [← hgen, hmatch])
  refine h.setTask rfl hle ?_ ?_ ?_
  · exact fun _ => rfl
  · intro y hy hown hgen hsleep
    have hy' : s.Live y := hy.imp_right fun ⟨q, hq⟩ => ⟨q, (h.passes q).pending y hq⟩
    have hgen' : (s.mem.owner timer).waitGeneration = s.mem.gen y := by
      have hbound := (h.timers.owned y hy').2.2.2
      rw [Memory.owner, hown] at hbound
      have hgeq : g = s.mem.gen y := hgen
      rw [hgeq] at hle
      exact Std.le_antisymm hle hbound
    obtain rfl := honly y hy' hown hgen'
    rcases hy with harmed | ⟨q, hq⟩
    · exact absurd harmed (h.timers.apart p y hflight)
    · exact absurd hq (hdone q)
  · intro q y hstage hown
    have hact := (h.passes q).acting y hstage
    have hy : s.Live y := .inr ⟨q, current_flight (by rw [hstage]; exact List.mem_singleton_self y)⟩
    rw [Memory.owner, hown] at hact
    obtain rfl := honly y hy hown hact.1
    refine absurd ?_ (hdone q)
    simp [Pass.pending, hstage, Stage.unresolved]

/-- A pass moves on while one of its timers ends the wait of its task. -/
theorem Sound.endBy (h : Sound s) (hflight : timer ∈ x'.flight)
    (hdone : timer ∉ x'.pending) (hmatch : (s.mem.owner timer).waitGeneration = s.mem.gen timer)
    (hg : g = (s.mem.owner timer).waitGeneration ∨ g = (s.mem.owner timer).waitGeneration + 1)
    (hx : GoesOn s.mem (s.pass p) x') :
    Sound { s.setPass p x' with mem := s.mem.setTask (s.mem.node timer).task ((s.mem.owner timer).over g) } := by
  have hs := h.goesOn hx
  refine hs.endWait (p := p) (by rw [setPass_self]; exact hflight) ?_ hmatch hg
  intro q hq
  by_cases hqp : q = p
  · subst hqp
    rw [setPass_self] at hq
    exact hdone hq
  · rw [setPass_other hqp] at hq
    exact hqp (h.timers.disjoint q p timer ((h.passes q).pending timer hq) (hx.flight.subset hflight))

/-! ## The steps of a pass -/

/-- A pass after one of its timers has ended a wait. -/
def Pass.ends (x : Pass) (timer : Ptr) (generation : UInt64) (stage : Stage) : Pass :=
  { x with stage := stage, ended := (timer, generation) :: x.ended }

theorem endBy_goto : (s.endBy p timer).goto p stage =
    { s.setPass p ((s.pass p).ends timer (s.mem.owner timer).waitGeneration stage) with
      mem := s.mem.setTask (s.mem.node timer).task ((s.mem.owner timer).over (s.mem.owner timer).waitGeneration) } := by
  simp only [Shard.endBy, Shard.goto, Shard.setPass, update_idem, update_self, Memory.endWait]
  rfl

theorem Sound.finish (h : Sound s) (hflight : (s.pass p).flight = []) (hbusy : (s.pass p).stage ≠ .idle) :
    Sound (s.finish p) := by
  have hp := h.passes p
  have hlists : (s.pass p).expired = [] ∧ (s.pass p).sleepers = [] := by
    simp only [Pass.flight, List.append_eq_nil_iff] at hflight
    exact ⟨hflight.1.2, hflight.2⟩
  have hidle : ({ s.pass p with stage := .idle } : Pass).flight = [] ∧ ({ s.pass p with stage := .idle } : Pass).pending = [] := by
    simp [Pass.flight, Pass.pending, Stage.current, Stage.unresolved, hlists]
  have htimers : Timers (s.setPass p { s.pass p with stage := .idle }) := by
    refine h.timers.setPass ?_ ?_ ?_
    · rw [hidle.1]
      exact fun y hy => absurd hy List.not_mem_nil
    · rw [hidle.1]
      exact List.nodup_nil
    · rw [hidle.2]
      exact fun y hy => absurd hy List.not_mem_nil
  refine ⟨{ htimers with }, ?_⟩
  intro q
  by_cases hq : q = p
  · subst hq
    have hnet : s.net q - (s.pass q).count = 0 := by
      rw [hp.net, if_neg hbusy]
      exact UInt32.sub_self _
    show PassOk s.mem s.proc.armed (update s.net q (s.net q - (s.pass q).count) q)
      (update s.pass q { s.pass q with stage := .idle } q)
    rw [update_self, update_self, hnet]
    constructor
    · rfl
    · exact fun _ => hidle.1
    · intros; contradiction
    · exact hp.popped
    · exact hp.poppedNodup
    · exact hp.due
    · exact hp.before
    · rw [hidle.1]
      exact fun y hy => absurd hy List.not_mem_nil
    · rw [hidle.2]
      exact fun y hy => absurd hy List.not_mem_nil
    · exact hp.ended
    · rw [hidle.2, List.append_nil]
      exact (List.nodup_append.mp hp.once).1
    · exact hp.left
    · simp
    · simp
  · show PassOk s.mem s.proc.armed (update s.net p _ q) (update s.pass p _ q)
    rw [update_of_ne hq, update_of_ne hq]
    exact h.passes q

/-- The next popped timer is put aside or given to `llam_timeout_task_wait`. -/
theorem Sound.take (h : Sound s) (hstage : (s.pass p).stage = .next)
    (hexpired : (s.pass p).expired = timer :: rest) {sleepers : List Ptr}
    (hx : (stage = .next ∧ sleepers = (s.pass p).sleepers ++ [timer]) ∨
      ((stage = .checked timer ∨ stage = .returned timer) ∧ sleepers = (s.pass p).sleepers)) :
    Sound (s.setPass p { s.pass p with
      stage := stage, expired := rest, handed := (s.pass p).handed ++ [timer], sleepers := sleepers }) := by
  have hflight : (s.pass p).flight = timer :: rest ++ (s.pass p).sleepers := by
    simp [Pass.flight, hstage, hexpired, Stage.current]
  have hpending : (s.pass p).pending = (s.pass p).sleepers ++ timer :: rest := by
    simp [Pass.pending, hstage, hexpired, Stage.unresolved]
  apply h.goesOn
  refine GoesOn.plain ⟨rfl, rfl, rfl, rfl, rfl, rfl⟩ ?_ ?_ ?_ ?_ ?_ ?_ ?_ rfl ?_
  · rw [hstage]
    rcases hx with ⟨rfl, -⟩ | ⟨rfl | rfl, -⟩ <;> exact ⟨by simp, by simp⟩
  · rcases hx with ⟨rfl, -⟩ | ⟨rfl | rfl, -⟩ <;> intros <;> contradiction
  · rw [hexpired]
    simp
  · exact fun y hy => List.mem_append_left _ hy
  · rw [hflight]
    apply List.Perm.subperm
    rcases hx with ⟨rfl, rfl⟩ | ⟨rfl | rfl, rfl⟩
    · simp only [Pass.flight, Stage.current, List.nil_append, ← List.append_assoc]
      exact List.perm_append_singleton _ _
    all_goals simp [Pass.flight, Stage.current]
  · rw [hpending]
    rcases hx with ⟨rfl, rfl⟩ | ⟨rfl | rfl, rfl⟩
    · simp only [Pass.pending, Stage.unresolved, List.append_assoc, List.singleton_append]
      exact List.Subperm.refl _
    · exact List.perm_middle.symm.subperm
    · exact ((List.sublist_cons_self timer rest).append_left _).subperm
  · intro y hy
    rcases hx with ⟨rfl, rfl⟩ | ⟨rfl | rfl, rfl⟩
    · simp only [Pass.pending, Stage.unresolved, Pass.flight, Stage.current, List.nil_append, List.mem_append] at hy ⊢
      exact hy.symm
    · simp only [Pass.pending, Stage.unresolved, Pass.flight, Stage.current, List.mem_append, List.mem_cons,
        List.not_mem_nil, or_false] at hy ⊢
      rcases hy with (hy | hy) | hy
      · exact .inl (.inl hy)
      · exact .inr hy
      · exact .inl (.inr hy)
    · simp only [Pass.pending, Stage.unresolved, Pass.flight, Stage.current, List.mem_append] at hy ⊢
      exact hy.elim .inr fun hy => .inl (.inr hy)
  · intro y r
    rcases hx with ⟨rfl, -⟩ | ⟨rfl | rfl, -⟩ <;> exact ⟨by simp, by simp⟩

/-- A pass that only goes to another stage keeps its timers, and has none to resolve that it had not before. -/
theorem Sound.goto (h : Sound s) {old stage : Stage} (hstage : (s.pass p).stage = old) (hbusy : old ≠ .idle ∧ stage ≠ .idle)
    (hlate : stage.late = true → (s.pass p).expired = []) (hcurrent : stage.current = old.current)
    (hunresolved : (stage.unresolved (s.pass p).sleepers).Sublist (old.unresolved (s.pass p).sleepers))
    (hreasoned : ∀ y r, stage = .reasoned y r → (s.mem.owner y).waitReason = r)
    (hacting : ∀ y, stage = .acting y .SLEEP →
      (s.mem.owner y).waitGeneration = s.mem.gen y ∧ (s.mem.owner y).waitReason = .SLEEP) : Sound (s.goto p stage) := by
  subst hstage
  have hflight : ({ s.pass p with stage := stage } : Pass).flight = (s.pass p).flight := by
    simp only [Pass.flight, hcurrent]
  have hpending : ({ s.pass p with stage := stage } : Pass).pending.Sublist (s.pass p).pending :=
    hunresolved.append_right _
  apply h.goesOn
  constructor
  · exact ⟨rfl, rfl, rfl, rfl, rfl, rfl⟩
  · exact hbusy
  · exact hlate
  · rfl
  · exact fun _ hy => hy
  · rw [hflight]
  · intro y hy
    rw [hflight]
    exact ⟨(h.passes p).pending y (hpending.subset hy), hpending.subset hy⟩
  · exact fun e he => .inl he
  · exact ((List.Sublist.refl _).append hpending).subperm
  · exact hreasoned
  · exact hacting

/-- A timer that is still to be resolved was handed to resolution when the pass is beyond it. -/
theorem PassOk.handed {armed : List Ptr} {net : UInt32} (h : PassOk m armed net x)
    (hpending : x.stage.unresolved x.sleepers = timer :: rest) : timer ∈ x.handed := by
  have hmem : timer ∈ x.pending := by simp [Pass.pending, hpending]
  obtain ⟨e, he, htimer, -⟩ := h.flown timer (h.pending timer hmem)
  have hpopped : timer ∈ x.handed ++ x.expired := by
    rw [← h.popped, ← htimer]
    exact List.mem_map_of_mem he
  have hnodup := (List.nodup_append.mp h.once).2.1
  rw [Pass.pending, hpending, List.cons_append, List.nodup_cons] at hnodup
  rcases List.mem_append.mp hpopped with hin | hin
  · exact hin
  · exact absurd (List.mem_append_right _ hin) hnodup.1

/-- A pass ends the wait of the next timer that it has to resolve. -/
theorem Sound.ends (h : Sound s) {old : Stage} (hstage : (s.pass p).stage = old) (hbusy : old ≠ .idle ∧ stage ≠ .idle)
    (hlate : stage.late = true → (s.pass p).expired = []) (hcurrent : stage.current = old.current)
    (hpending : old.unresolved (s.pass p).sleepers = timer :: stage.unresolved (s.pass p).sleepers)
    (hplain : ∀ y r, stage ≠ .reasoned y r ∧ stage ≠ .acting y r)
    (hmatch : (s.mem.owner timer).waitGeneration = s.mem.gen timer)
    (hg : g = (s.mem.owner timer).waitGeneration ∨ g = (s.mem.owner timer).waitGeneration + 1) :
    Sound { s.setPass p ((s.pass p).ends timer (s.mem.owner timer).waitGeneration stage) with
      mem := s.mem.setTask (s.mem.node timer).task ((s.mem.owner timer).over g) } := by
  subst hstage
  have hp := h.passes p
  have hflight : ((s.pass p).ends timer (s.mem.owner timer).waitGeneration stage).flight = (s.pass p).flight := by
    simp only [Pass.flight, Pass.ends, hcurrent]
  have hold : (s.pass p).pending = timer :: (stage.unresolved (s.pass p).sleepers ++ (s.pass p).expired) := by
    simp only [Pass.pending, hpending, List.cons_append]
  have hnew : ((s.pass p).ends timer (s.mem.owner timer).waitGeneration stage).pending =
      stage.unresolved (s.pass p).sleepers ++ (s.pass p).expired := rfl
  have hnodup := (List.nodup_append.mp hp.once).2.1
  rw [hold, List.nodup_cons] at hnodup
  have htimer : timer ∈ (s.pass p).flight := hp.pending timer (by rw [hold]; exact List.mem_cons_self)
  refine h.endBy (by rw [hflight]; exact htimer) (by rw [hnew]; exact hnodup.1) hmatch hg ?_
  constructor
  · exact ⟨rfl, rfl, rfl, rfl, rfl, rfl⟩
  · exact hbusy
  · exact hlate
  · rfl
  · exact fun _ hy => hy
  · rw [hflight]
  · intro y hy
    have hy' : y ∈ (s.pass p).pending := by
      rw [hold]
      exact List.mem_cons_of_mem _ hy
    rw [hflight]
    exact ⟨hp.pending y hy', hy'⟩
  · intro e he
    rcases List.mem_cons.mp he with rfl | he
    · exact .inr ⟨hp.handed hpending, htimer, hmatch⟩
    · exact .inl he
  · rw [hnew, hold]
    exact List.perm_middle.symm.subperm
  · exact fun y r hstage => absurd hstage (hplain y r).1
  · exact fun y hstage => absurd hstage (hplain y _).2

theorem Sound.drop (h : Sound s) (hx : GoesOn s.mem (s.pass p) x')
    (hflight : timer ∈ (s.pass p).flight) (hgone : timer ∉ x'.flight) : Sound ((s.setPass p x').release timer) := by
  refine (h.goesOn hx).release ?_ true
  rintro (harmed | ⟨q, hq⟩)
  · exact h.timers.apart p timer hflight harmed
  · by_cases hqp : q = p
    · subst hqp
      rw [setPass_self] at hq
      exact hgone hq
    · rw [setPass_other hqp] at hq
      exact hqp (h.timers.disjoint q p timer hq hflight)

theorem generation_of_matches (h : m.generationMatches timer = true) :
    (m.owner timer).waitGeneration = m.gen timer := by
  simp only [Memory.generationMatches, decide_eq_true_eq] at h
  exact h.2.2.2

section

variable (h : Sound s)

include h

/-- One timer of `llam_timeout_task_wait`, at the end of which the wait is over or was left alone. -/
theorem Sound.act {reason : WaitReason} (hstage : (s.pass p).stage = .acting timer reason)
    (hs : (if s.mem.timesOut timer reason then some ((s.endBy p timer).goto p (.returned timer))
      else some (s.goto p (.returned timer))) = some s') : Sound s' := by
  split at hs
  · rename_i hout
    cases hs
    rw [endBy_goto]
    refine h.ends hstage ⟨nofun, nofun⟩ nofun rfl rfl (fun _ _ => ⟨nofun, nofun⟩) ?_ (.inl rfl)
    simp only [Memory.timesOut, decide_eq_true_eq] at hout
    rcases hout with rfl | ⟨-, hmatch, -⟩
    · exact ((h.passes p).acting timer hstage).1
    · exact generation_of_matches hmatch
  · cases hs
    exact h.goto hstage ⟨nofun, nofun⟩ nofun rfl (List.sublist_cons_self _ _) nofun nofun

theorem Sound.wakes {parked : Bool} (hstage : (s.pass p).stage = .waking (timer :: rest))
    (hs : (if s.mem.sleepsOn s.id timer then let s' := (s.endBy p timer).goto p (.waking rest)
        some (if parked then { s' with mem := s'.mem.clearWait (s.mem.node timer).task } else s')
      else some (s.goto p (.waking rest))) = some s') : Sound s' := by
  have hdrained : (s.pass p).expired = [] := (h.passes p).drained (by rw [hstage]; rfl)
  split at hs
  · rename_i hsleeps
    have hmatch : (s.mem.owner timer).waitGeneration = s.mem.gen timer := by
      simp only [Memory.sleepsOn, decide_eq_true_eq] at hsleeps
      exact generation_of_matches hsleeps.1
    cases hs
    cases parked with
    | false =>
      rw [if_neg Bool.false_ne_true, endBy_goto]
      exact h.ends hstage (by simp) (fun _ => hdrained) rfl rfl (fun _ _ => ⟨by simp, by simp⟩) hmatch (.inl rfl)
    | true =>
      rw [if_pos rfl, endBy_goto]
      -- the two writes to the task are one
      have htwo : ((s.mem.setTask (s.mem.node timer).task
          ((s.mem.owner timer).over (s.mem.owner timer).waitGeneration)).clearWait (s.mem.node timer).task) =
          s.mem.setTask (s.mem.node timer).task ((s.mem.owner timer).over ((s.mem.owner timer).waitGeneration + 1)) := by
        simp only [Memory.clearWait, Memory.setTask, update_idem, update_self, Task.over]
      rw [htwo]
      exact h.ends hstage (by simp) (fun _ => hdrained) rfl rfl (fun _ _ => ⟨by simp, by simp⟩) hmatch (.inr rfl)
  · cases hs
    exact h.goto hstage (by simp) (fun _ => hdrained) rfl (List.sublist_cons_self _ _) (by simp) (by simp)

theorem Sound.advance {parked : Bool} (hs : s.advance p parked = some s') : Sound s' := by
  have hp := h.passes p
  unfold Shard.advance at hs
  dsimp only at hs
  cases hstage : (s.pass p).stage with
  | idle =>
    rw [hstage] at hs
    cases hs
  | next =>
    rw [hstage] at hs
    cases hexpired : (s.pass p).expired with
    | cons timer rest =>
      rw [hexpired] at hs
      dsimp only at hs
      split at hs
      · cases hs
        exact h.take hstage hexpired (.inl ⟨rfl, rfl⟩)
      split at hs
      · cases hs
        exact h.take hstage hexpired (.inr ⟨.inl rfl, rfl⟩)
      · cases hs
        exact h.take hstage hexpired (.inr ⟨.inr rfl, rfl⟩)
    | nil =>
      rw [hexpired] at hs
      dsimp only at hs
      split at hs
      · rename_i hnone
        cases hs
        refine h.finish ?_ (by rw [hstage]; simp)
        rw [Pass.flight, hstage, hexpired, hnone]
        rfl
      · cases hs
        exact h.goto hstage (by simp) (fun _ => hexpired) rfl (List.Sublist.refl _) (by simp) (by simp)
  | checked timer =>
    rw [hstage] at hs
    cases hs
    refine h.goto hstage (by simp) (by intros; contradiction) rfl (List.Sublist.refl _) ?_ (by simp)
    intro y r heq
    cases heq
    rfl
  | reasoned timer reason =>
    rw [hstage] at hs
    dsimp only at hs
    split at hs
    · rename_i hmatch
      have hgen := generation_of_matches hmatch
      cases hs
      refine h.goto hstage (by simp) (by intros; contradiction) rfl (List.Sublist.refl _) (by simp) ?_
      intro y heq
      cases heq
      exact ⟨hgen, hp.reasoned _ _ hstage hgen⟩
    · cases hs
      exact h.goto hstage (by simp) (by intros; contradiction) rfl (List.sublist_cons_self _ _) (by simp) (by simp)
  | acting timer reason =>
    rw [hstage] at hs
    exact h.act hstage hs
  | returned timer =>
    rw [hstage] at hs
    cases hs
    have hflight : (s.pass p).flight = timer :: ({ s.pass p with stage := .next } : Pass).flight := by
      simp only [Pass.flight, hstage, Stage.current, List.cons_append, List.nil_append]
    have hpending : ({ s.pass p with stage := .next } : Pass).pending = (s.pass p).pending := by
      simp only [Pass.pending, hstage, Stage.unresolved]
    have hnodup := h.timers.nodup p
    rw [hflight, List.nodup_cons] at hnodup
    refine h.drop ?_ ?_ hnodup.1
    · refine GoesOn.plain ⟨rfl, rfl, rfl, rfl, rfl, rfl⟩ ?_ (by intros; contradiction) rfl (fun _ hy => hy) ?_ ?_ ?_ rfl
        (fun _ _ => ⟨by simp, by simp⟩)
      · rw [hstage]
        exact ⟨by simp, by simp⟩
      · rw [hflight]
        exact (List.sublist_cons_self _ _).subperm
      · rw [hpending]
      · intro y hy
        simp only [Pass.pending, Stage.unresolved, Pass.flight, Stage.current, List.nil_append, List.mem_append] at hy ⊢
        exact hy.symm
    · rw [hflight]
      exact List.mem_cons_self
  | waking rest =>
    cases rest with
    | cons timer rest =>
      rw [hstage] at hs
      exact h.wakes hstage hs
    | nil =>
      rw [hstage] at hs
      cases hs
      have hdrained : (s.pass p).expired = [] := hp.drained (by rw [hstage]; rfl)
      exact h.goto hstage (by simp) (fun _ => hdrained) rfl (List.Sublist.refl _) (by simp) (by simp)
  | releasing =>
    rw [hstage] at hs
    have hdrained : (s.pass p).expired = [] := hp.drained (by rw [hstage]; rfl)
    cases hsleepers : (s.pass p).sleepers with
    | cons timer rest =>
      rw [hsleepers] at hs
      cases hs
      have hflight : (s.pass p).flight = timer :: ({ s.pass p with stage := .releasing, sleepers := rest } : Pass).flight := by
        simp only [Pass.flight, hstage, Stage.current, hsleepers, hdrained, List.nil_append]
      have hpending : ({ s.pass p with stage := .releasing, sleepers := rest } : Pass).pending = [] := by
        simp only [Pass.pending, Stage.unresolved, hdrained, List.nil_append]
      have hnodup := h.timers.nodup p
      rw [hflight, List.nodup_cons] at hnodup
      refine h.drop ?_ ?_ hnodup.1
      · refine GoesOn.plain ⟨rfl, rfl, rfl, rfl, rfl, rfl⟩ ?_ (fun _ => hdrained) rfl (fun _ hy => hy) ?_ ?_ ?_ rfl
          (fun _ _ => ⟨by simp, by simp⟩)
        · rw [hstage]
          exact ⟨by simp, by simp⟩
        · rw [hflight]
          exact (List.sublist_cons_self _ _).subperm
        · rw [hpending]
          exact List.nil_subperm
        · rw [hpending]
          exact fun y hy => absurd hy List.not_mem_nil
      · rw [hflight]
        exact List.mem_cons_self
    | nil =>
      rw [hsleepers] at hs
      cases hs
      refine h.finish ?_ (by rw [hstage]; simp)
      rw [Pass.flight, hstage, hdrained, hsleepers]
      rfl

/-! ## The others -/

variable {task node : Ptr}

/-- A task that is not parked goes on to its next generation. -/
theorem Sound.fresh {u : Task} (hactive : u.activeTimer = (s.mem.task task).activeTimer)
    (hgeneration : u.waitGeneration = (s.mem.task task).waitGeneration + 1)
    (hlast : (s.mem.task task).waitGeneration ≠ noGeneration) (hstate : (s.mem.task task).state ≠ .PARKED) :
    Sound { s with mem := s.mem.setTask task u } := by
  have hlt : (s.mem.task task).waitGeneration < u.waitGeneration := by
    rw [hgeneration]
    exact lt_next hlast
  refine h.setTask hactive (Std.le_of_lt hlt) ?_ ?_ ?_
  · intro hsame
    rw [hsame] at hlt
    exact absurd hlt (Std.lt_irrefl)
  · intro y hy hown hgen _
    have hle := (h.timers.owned y (hy.live h)).2.2.2
    rw [Memory.owner, hown, ← hgen] at hle
    exact absurd hlt (Std.not_lt.mpr hle)
  · intro q y hstage hown
    -- a sleep that is about to be woken is pending
    have hact := (h.passes q).acting y hstage
    have hdue : s.Due y := .inr ⟨q, by simp [Pass.pending, hstage, Stage.unresolved]⟩
    have hparked := h.timers.asleep y hdue hact.1 hact.2
    rw [Memory.owner, hown] at hparked
    exact absurd hparked hstate

theorem Sound.armed {proc : Processor} {u : Task} {fields : Node} (hfree : node ∉ s.held)
    (hnull : node ≠ NULL) (htask : task ≠ NULL) (hactive : (s.mem.task task).activeTimer = NULL)
    (hparked : (s.mem.task task).state = .PARKED)
    (hgen : (s.mem.task task).waitGeneration ≠ 0 ∧ (s.mem.task task).waitGeneration ≠ noGeneration)
    (hnew : ∀ y, s.Live y → (s.mem.node y).task = task → s.mem.gen y < (s.mem.task task).waitGeneration)
    (hvalid : Valid m proc) (hperm : proc.armed.Perm (node :: s.proc.armed))
    (hnodes : m.node = update s.mem.node node fields) (htasks : m.task = update s.mem.task task u)
    (hfields : fields.task = task ∧ fields.waitGeneration = (s.mem.task task).waitGeneration)
    (hu : u.activeTimer = node ∧ u.waitGeneration = (s.mem.task task).waitGeneration ∧
      u.waitReason = (s.mem.task task).waitReason ∧ u.state = (s.mem.task task).state) : Sound { s with
      mem := m, proc := proc, held := node :: s.held,
      pass := fun p => { s.pass p with since := node :: (s.pass p).since } } := by
  obtain ⟨huactive, hugen, hureason, hustate⟩ := hu
  have hne : ∀ y, s.Live y → y ≠ node := fun y hy heq => hfree (heq ▸ h.timers.held y hy)
  have hmem : ∀ y, y ∈ proc.armed → y = node ∨ y ∈ s.proc.armed := fun y hy => List.mem_cons.mp (hperm.mem_iff.mp hy)
  have hold : ∀ y, s.Live y → m.node y = s.mem.node y := by
    intro y hy
    rw [hnodes, update_of_ne (hne y hy)]
  have hself : m.node node = fields := by rw [hnodes, update_self]
  have htaskSelf : m.task task = u := by rw [htasks, update_self]
  have hother : ∀ v, v ≠ task → m.task v = s.mem.task v := fun v hv => by rw [htasks, update_of_ne hv]
  have hgeneration : ∀ v, (m.task v).waitGeneration = (s.mem.task v).waitGeneration := by
    rw [htasks]
    exact task_update Task.waitGeneration hugen
  have hreason : ∀ v, (m.task v).waitReason = (s.mem.task v).waitReason := by
    rw [htasks]
    exact task_update Task.waitReason hureason
  have hstate : ∀ v, (m.task v).state = (s.mem.task v).state := by
    rw [htasks]
    exact task_update Task.state hustate
  have hsame : ∀ y, s.Live y → SameTimer s.mem m y :=
    fun y hy => .of_waits (hold y hy) hgeneration hreason hstate
  have hlive : ∀ y, (y ∈ proc.armed ∨ ∃ q, y ∈ (s.pass q).flight) → y = node ∨ s.Live y := by
    rintro y (hy | hy)
    · exact (hmem y hy).imp_right .inl
    · exact .inr (.inr hy)
  refine ⟨?_, ?_⟩
  · constructor
    · exact hvalid
    · constructor
      · intro y hy
        rcases hmem y hy with rfl | hy
        · rw [hself, hfields.1, htaskSelf]
          exact ⟨hnull, htask, huactive⟩
        obtain ⟨hy0, hyowner, hytimer⟩ := h.timers.tracked.timer y hy
        rw [hold y (.inl hy), hother]
        · exact ⟨hy0, hyowner, hytimer⟩
        · intro heq
          rw [heq, hactive] at hytimer
          exact hy0 hytimer.symm
      · intro v hv
        by_cases hvt : v = task
        · rw [hvt, htaskSelf, huactive]
          refine ⟨hperm.mem_iff.mpr List.mem_cons_self, ?_⟩
          rw [hself, hfields.1]
        rw [hother v hvt] at hv ⊢
        obtain ⟨harmed, howned⟩ := h.timers.tracked.active v hv
        refine ⟨hperm.mem_iff.mpr (List.mem_cons_of_mem _ harmed), ?_⟩
        rw [hold _ (.inl harmed)]
        exact howned
    · intro y hy
      rcases hlive y hy with rfl | hy
      · exact List.mem_cons_self
      · exact List.mem_cons_of_mem _ (h.timers.held y hy)
    · exact List.nodup_cons.mpr ⟨hfree, h.timers.heldNodup⟩
    · exact h.timers.nonnull
    · intro q y hy hin
      rcases hmem y hin with heq | hin
      · exact hne y (.inr ⟨q, hy⟩) heq
      · exact h.timers.apart q y hy hin
    · exact h.timers.disjoint
    · exact h.timers.nodup
    · intro y hy
      rcases hlive y hy with rfl | hy
      · rw [Memory.owner, Memory.gen, hself, hfields.1, hfields.2, hgeneration]
        exact ⟨htask, hgen.1, hgen.2, Std.le_refl _⟩
      · rw [hold y hy, (hsame y hy).gen, (hsame y hy).generation]
        exact h.timers.owned y hy
    · intro y z hy hz
      -- the timers of the task that are already there are older
      have hapart : ∀ y, s.Live y → (m.node y).task = task → m.gen y ≠ (s.mem.task task).waitGeneration := by
        intro y hy hown heq
        rw [hold y hy] at hown
        rw [(hsame y hy).gen] at heq
        have hlt := hnew y hy hown
        rw [heq] at hlt
        exact absurd hlt Std.lt_irrefl
      have hnode : (m.node node).task = task ∧ m.gen node = (s.mem.task task).waitGeneration := by
        rw [Memory.gen, hself]
        exact hfields
      intro hown hgens
      rcases hlive y hy with hyn | hyl
      · rcases hlive z hz with hzn | hzl
        · exact hyn.trans hzn.symm
        · rw [hyn] at hown hgens
          exact absurd (hgens.symm.trans hnode.2) (hapart z hzl (hown.symm.trans hnode.1))
      rcases hlive z hz with hzn | hzl
      · rw [hzn] at hown hgens
        exact absurd (hgens.trans hnode.2) (hapart y hyl (hown.trans hnode.1))
      rw [hold y hyl, hold z hzl] at hown
      rw [(hsame y hyl).gen, (hsame z hzl).gen] at hgens
      exact h.timers.unique y z hyl hzl hown hgens
    · intro q y hy
      have hy' : s.Live y := .inr ⟨q, hy⟩
      rw [(hsame y hy').gen, (hsame y hy').generation, (hsame y hy').owner]
      intro hmatch
      by_cases hown : (s.mem.node y).task = task
      · have hlt := hnew y hy' hown
        rw [← hmatch, Memory.owner, hown] at hlt
        exact absurd hlt Std.lt_irrefl
      · rw [hother _ hown]
        exact h.timers.detached q y hy hmatch
    · intro y hy
      have hcases : y = node ∨ s.Due y := by
        rcases hy with hy | hy
        · exact (hmem y hy).imp_right .inl
        · exact .inr (.inr hy)
      rcases hcases with rfl | hy
      · intro _ _
        rw [Memory.owner, hself, hfields.1, hstate]
        exact hparked
      · have hy' := hsame y (hy.live h)
        rw [hy'.gen, hy'.generation, hy'.reason, hy'.state]
        exact h.timers.asleep y hy
  · intro q
    refine (h.passes q).unseen (fun y hy => hsame y (.inr ⟨q, hy⟩)) fun y hy hsince => ?_
    have hsince' : y ≠ node ∧ y ∉ (s.pass q).since := not_or.mp (fun hor => hsince (List.mem_cons.mpr hor))
    have hy' : y ∈ s.proc.armed := (hmem y hy).resolve_left hsince'.1
    exact ⟨hy', hsince'.2, hold y (.inl hy')⟩

/-- A task that has a new wait arms a timer, or fails to. -/
theorem Sound.arm (hfree : node ∉ s.held) (hnull : node ≠ NULL) (htask : task ≠ NULL)
    (hparked : (s.mem.task task).state = .PARKED)
    (hgen : (s.mem.task task).waitGeneration ≠ 0 ∧ (s.mem.task task).waitGeneration ≠ noGeneration)
    (hnew : ∀ y, s.Live y → (s.mem.node y).task = task → s.mem.gen y < (s.mem.task task).waitGeneration)
    (allocated : Bool) : Sound (s.arm task node allocated) := by
  unfold Shard.arm
  split
  · exact h
  rename_i hactive
  rw [not_not] at hactive
  dsimp only
  have hne : ∀ y, s.Live y → y ≠ node := fun y hy heq => hfree (heq ▸ h.timers.held y hy)
  have harmed : node ∉ s.proc.armed := fun hin => hne node (.inl hin) rfl
  have hvalid := h.timers.valid.node harmed (s.timerFor (s.mem.task task) task)
  obtain ⟨hpushed, hperm⟩ := pushLocked_spec hvalid harmed allocated
  rcases pushLocked_cases _ s.proc node allocated with ⟨cap, e, -, heq⟩ | ⟨cap, -, heq⟩
  · rw [heq] at hpushed ⊢
    obtain ⟨hnode, hindex, hgeneration, hreason, hstate, hactive'⟩ :=
      release_spec { s.mem with node := update s.mem.node node (s.timerFor (s.mem.task task) task) } node false
    have hnode' : ∀ y, s.Live y → (Memory.release { s.mem with
        node := update s.mem.node node (s.timerFor (s.mem.task task) task) } node false).node y =
          s.mem.node y := by
      intro y hy
      rw [hnode y (hne y hy)]
      exact update_of_ne (hne y hy) _ _
    refine h.congr ?_ { h.timers.tracked.congr (fun y hy => hnode' y (.inl hy)) hactive' with } (fun _ hy => hy)
      (fun y hy => .of_waits (hnode' y hy) hgeneration hreason hstate) (fun v hv => (hactive' v).trans hv)
      h.timers.held h.timers.heldNodup
    refine hpushed.congr (fun y hy => ?_) (fun y _ => by rw [hindex])
    rw [hnode y (hne y (.inl hy))]
  · rw [heq] at hpushed hperm ⊢
    refine h.armed hfree hnull htask hactive hparked hgen hnew ?_ hperm rfl rfl ⟨rfl, rfl⟩ ⟨rfl, rfl, rfl, rfl⟩
    exact hpushed.congr (fun _ _ => rfl) (fun _ _ => rfl)

theorem Sound.found (hactive : (s.mem.task task).activeTimer = node) (hnull : node ≠ NULL) {index : Nat}
    (hindex : index = if s.mem.heapIndex node < s.proc.len ∧ s.proc.heap (s.mem.heapIndex node) = node
      then s.mem.heapIndex node else s.proc.armed.idxOf node) :
    s.proc.heap index = node ∧ (s.mem.node node).task = task := by
  have hactive' := h.timers.tracked.active task (by rw [hactive]; exact hnull)
  rw [hactive] at hactive'
  refine ⟨?_, hactive'.2⟩
  obtain ⟨i, hi, hitem⟩ := List.mem_map.mp hactive'.1
  have hi' : i < s.proc.len := List.mem_range.mp hi
  have hpos : s.mem.heapIndex node = i := by
    rw [← hitem]
    exact h.timers.valid.indexed i hi'
  rw [hindex, hpos, if_pos ⟨hi', hitem⟩]
  exact hitem

theorem Sound.cancel (hs : s.cancel task = some s') : Sound s' := by
  unfold Shard.cancel at hs
  dsimp only at hs
  generalize hnode : (s.mem.task task).activeTimer = node at hs
  split at hs
  · cases hs
  rename_i hgo
  rw [not_or, not_or] at hgo
  generalize hindex : (if s.mem.heapIndex node < s.proc.len ∧ s.proc.heap (s.mem.heapIndex node) = node
    then s.mem.heapIndex node else s.proc.armed.idxOf node) = index at hs
  obtain ⟨hitem, hown⟩ := h.found hnode hgo.2.1 hindex.symm
  split at hs
  · rename_i hlt
    cases hs
    obtain ⟨hvalid, -, hperm⟩ := removeAtLocked_spec index h.timers.valid hlt
    have hmem := removeAtLocked_node s.mem s.proc index
    have htask := removeAtLocked_task s.mem s.proc index
    generalize removeAtLocked s.mem s.proc index = r at *
    obtain ⟨m, proc, removed⟩ := r
    dsimp only at *
    rw [hitem] at hperm
    have hnodup := hperm.nodup_iff.mpr h.timers.valid.indexed.nodup
    -- the removal is the detachment of a popped timer
    have htracked := h.timers.tracked.detach hmem htask hperm h.timers.valid.indexed.nodup
    have hdetach : m.detach node = m.forgetTimer task := by
      rw [Memory.detach, hmem, htask, hown, if_pos ⟨hgo.1, hnode⟩]
    rw [hdetach] at htracked
    have hsame : SameWaits s.mem (m.forgetTimer task) := by
      rw [← hdetach]
      refine SameWaits.trans ?_ (detach_spec m node).1
      exact ⟨hmem, fun t => by rw [htask], fun t => by rw [htask], fun t => by rw [htask], fun t => by rw [htask]⟩
    have hremoved : Sound { s with mem := m.forgetTimer task, proc := proc } := by
      refine h.congr (hvalid.congr (fun _ _ => rfl) (fun _ _ => rfl)) htracked ?_ (fun y _ => hsame.timer y) ?_
        h.timers.held h.timers.heldNodup
      · exact fun y hy => hperm.mem_iff.mp (List.mem_cons_of_mem _ hy)
      · intro v hv
        simp only [Memory.forgetTimer, Memory.setTask, update_apply, htask]
        split
        · rfl
        · exact hv
    have hflight : ∀ q, node ∉ (s.pass q).flight :=
      fun q hq => h.timers.apart q node hq (hperm.mem_iff.mp List.mem_cons_self)
    have hgone : ¬ ({ s with mem := m.forgetTimer task, proc := proc } : Shard P).Live node := by
      rintro (hin | ⟨q, hq⟩)
      · exact (List.nodup_cons.mp hnodup).1 hin
      · exact hflight q hq
    have hreleased := hremoved.release hgone false
    split
    · refine hreleased.setTask rfl (Std.le_refl _) (fun _ => rfl) ?_ (fun _ _ _ _ => rfl)
      -- no timer is due for the wait: the task had its timer in the heap, and that one is gone
      intro y hy hyown hygen
      have hlive := hy.live hreleased
      have hyne : y ≠ node := fun heq => hgone (heq ▸ hlive)
      obtain ⟨hrnode, -, hrgeneration, -, -, -⟩ := release_spec (m.forgetTimer task) node false
      have hsource : ((m.forgetTimer task).release node false).node y = s.mem.node y := by
        rw [hrnode y hyne]
        exact congrFun hmem y
      have hyown' : (s.mem.node y).task = task := by
        rw [← hsource]
        exact hyown
      have hmatch : (s.mem.owner y).waitGeneration = s.mem.gen y := by
        have hygen' : (((m.forgetTimer task).release node false).task task).waitGeneration =
            (((m.forgetTimer task).release node false).node y).waitGeneration := hygen
        rw [hrgeneration, hsource, hsame.generation] at hygen'
        rw [Memory.owner, hyown']
        exact hygen'
      rcases hlive with hin | ⟨q, hq⟩
      · have htimer := (h.timers.tracked.timer y (hperm.mem_iff.mp (List.mem_cons_of_mem _ hin))).2.2
        rw [hyown', hnode] at htimer
        exact absurd htimer.symm hyne
      · have hnone := h.timers.detached q y hq hmatch
        rw [Memory.owner, hyown', hnode] at hnone
        exact absurd hnone hgo.2.1
    · exact hreleased
  · cases hs

end

theorem move_sound (s : Shard P) (a : Move P) (s' : Shard P) (h : Sound s) (hs : s.move a = some s') : Sound s' := by
  cases a with
  | sample p now => exact h.sample hs
  | advance p parked => exact h.advance hs
  | park task reason parkedShard timer =>
    simp only [Shard.move] at hs
    split at hs
    · cases hs
    rename_i hgo
    rw [not_or, not_or] at hgo
    obtain ⟨htask, hstate, hroom⟩ := hgo
    have hroom' : (s.mem.task task).waitGeneration.toNat < 18446744073709551614 := by
      have hlt := Std.not_le.mp hroom
      exact hlt
    have hlast : (s.mem.task task).waitGeneration ≠ noGeneration := by
      intro heq
      rw [heq] at hroom'
      exact absurd hroom' (by decide)
    have hparked : ∀ deadline, Sound (s.parkTask task reason parkedShard deadline) :=
      fun deadline => h.fresh rfl rfl hlast hstate
    cases timer with
    | none =>
      cases hs
      exact hparked 0
    | some timer =>
      obtain ⟨node, deadline, allocated⟩ := timer
      dsimp only at hs
      split at hs
      · cases hs
      rename_i hfree
      rw [not_or] at hfree
      cases hs
      have hself : (s.parkTask task reason parkedShard deadline).mem.task task =
          { s.mem.task task with
            state := .PARKED, waitReason := reason, waitGeneration := (s.mem.task task).waitGeneration + 1,
            parkedShard := parkedShard, deadlineNs := deadline } := update_self _ _ _
      have hnext : ((s.mem.task task).waitGeneration + 1).toNat = (s.mem.task task).waitGeneration.toNat + 1 := by
        rw [UInt64.toNat_add]
        simp only [UInt64.reduceToNat]
        omega
      refine (hparked deadline).arm hfree.2 hfree.1 htask (by rw [hself]) ?_ ?_ allocated
      · rw [hself]
        constructor
        · intro hzero
          have := congrArg UInt64.toNat hzero
          rw [hnext] at this
          simp at this
        · intro hmax
          have hmax' := congrArg UInt64.toNat hmax
          rw [hnext] at hmax'
          have hconst : noGeneration.toNat = 18446744073709551615 := rfl
          omega
      · intro y hy hyown
        rw [hself]
        have hle := (h.timers.owned y hy).2.2.2
        rw [Memory.owner] at hle
        have hyown' : (s.mem.node y).task = task := hyown
        rw [hyown'] at hle
        exact Std.lt_of_le_of_lt hle (lt_next hlast)
  | wake task =>
    simp only [Shard.move] at hs
    split at hs
    · rename_i hgo
      cases hs
      refine h.setTask rfl (Std.le_refl _) (fun _ => rfl) ?_ (fun _ _ _ _ => rfl)
      exact fun _ _ _ _ hsleep => absurd hsleep hgo.2
    · cases hs
  | clear task =>
    simp only [Shard.move] at hs
    split at hs
    · rename_i hgo
      cases hs
      exact h.fresh rfl rfl hgo.2 hgo.1
    · cases hs
  | cancel task => exact h.cancel hs
  | scanRefs task refs =>
    cases hs
    refine h.setTask rfl (Std.le_refl _) (fun _ => rfl) ?_ (fun _ _ _ _ => rfl)
    intro y hy hown hgen hsleep
    have hold := h.timers.asleep y hy
    rw [Memory.owner, hown] at hold
    exact hold hgen hsleep

/-! ## The counter -/

/-- What a step adds to the counter, one pass has added. -/
theorem move_callbacks {a : Move P} (hs : s.move a = some s') : (s'.callbacks = s.callbacks ∧ s'.net = s.net) ∨
      ∃ p d, s'.callbacks = s.callbacks + d ∧ s'.net = update s.net p (s.net p + d) := by
  cases a with
  | sample p now =>
    simp only [Shard.move, Shard.sample] at hs
    repeat' split at hs
    · cases hs
    · cases hs
      exact .inl ⟨rfl, rfl⟩
    · cases hs
      exact .inr ⟨p, _, rfl, rfl⟩
  | advance p parked =>
    simp only [Shard.move, Shard.advance] at hs
    have hfinish : ∃ q d, (s.finish p).callbacks = s.callbacks + d ∧
        (s.finish p).net = update s.net q (s.net q + d) := by
      refine ⟨p, -(s.pass p).count, ?_, ?_⟩
      · rw [← sub_eq_add_neg]
        rfl
      · rw [← sub_eq_add_neg]
        rfl
    cases parked <;> repeat' split at hs
    all_goals
      first
      | contradiction
      | cases hs
        first
        | exact .inl ⟨rfl, rfl⟩
        | exact .inr hfinish
  | park task reason parkedShard timer =>
    left
    simp only [Shard.move] at hs
    have harm : ∀ (u : Shard P) (task node : Ptr) (allocated : Bool),
        (u.arm task node allocated).callbacks = u.callbacks ∧ (u.arm task node allocated).net = u.net := by
      intro u task node allocated
      unfold Shard.arm
      dsimp only
      repeat' split
      all_goals exact ⟨rfl, rfl⟩
    repeat' split at hs
    · cases hs
    · cases hs
      exact ⟨rfl, rfl⟩
    · cases hs
    · cases hs
      exact harm _ _ _ _
  | cancel task =>
    left
    simp only [Shard.move, Shard.cancel] at hs
    repeat' split at hs
    all_goals
      first
      | contradiction
      | cases hs
        exact ⟨rfl, rfl⟩
  | wake task | clear task | scanRefs task refs =>
    left
    simp only [Shard.move] at hs
    repeat' split at hs
    all_goals
      first
      | contradiction
      | cases hs
        exact ⟨rfl, rfl⟩

/-- The counter has what it had, and what the passes have added. -/
def Balanced (callbacks : UInt32) (s : Shard P) : Prop :=
  ∃ F : Finset P, (∀ p, p ∉ F → s.net p = 0) ∧ s.callbacks = callbacks + ∑ p ∈ F, s.net p

theorem Balanced.move {callbacks : UInt32} {a : Move P} (h : Balanced callbacks s) (hs : s.move a = some s') :
    Balanced callbacks s' := by
  obtain ⟨F, hzero, hsum⟩ := h
  rcases move_callbacks hs with ⟨hcallbacks, hnet⟩ | ⟨p, d, hcallbacks, hnet⟩
  · refine ⟨F, ?_, ?_⟩
    · rw [hnet]
      exact hzero
    · rw [hcallbacks, hnet]
      exact hsum
  · refine ⟨insert p F, ?_, ?_⟩
    · intro q hq
      have hq' := not_or.mp fun hor => hq (Finset.mem_insert.mpr hor)
      rw [hnet, update_of_ne hq'.1]
      exact hzero q hq'.2
    · have hold : ∑ q ∈ insert p F, s.net q = ∑ q ∈ F, s.net q := by
        by_cases hp : p ∈ F
        · rw [Finset.insert_eq_of_mem hp]
        · rw [Finset.sum_insert hp, hzero p hp, zero_add]
      have hnew : ∑ q ∈ insert p F, s'.net q = ∑ q ∈ insert p F, s.net q + d := by
        rw [hnet, Finset.sum_update_of_mem (Finset.mem_insert_self p F),
          ← Finset.add_sum_erase _ _ (Finset.mem_insert_self p F), Finset.sdiff_singleton_eq_erase]
        ac_rfl
      rw [hcallbacks, hsum, hnew, hold, add_assoc]

/-! ## The contract -/

/-- A shard on which no pass has run yet: the heap is valid, its timers are those of the tasks and were armed for waits
of them, and sleeps with a timer are pending. -/
structure Start (s : Shard P) : Prop where
  valid : Valid s.mem s.proc
  tracked : Tracked s.mem s.proc
  held : ∀ x ∈ s.proc.armed, x ∈ s.held
  heldNodup : s.held.Nodup
  waits : ∀ x ∈ s.proc.armed, s.mem.gen x ≠ 0 ∧ s.mem.gen x ≠ noGeneration ∧
    s.mem.gen x ≤ (s.mem.owner x).waitGeneration
  asleep : ∀ x ∈ s.proc.armed, (s.mem.owner x).waitGeneration = s.mem.gen x → (s.mem.owner x).waitReason = .SLEEP →
    (s.mem.owner x).state = .PARKED
  pass : ∀ p, s.pass p = .init
  net : ∀ p, s.net p = 0

theorem Start.sound (h : Start s) : Sound s := by
  have hflight : ∀ p, (s.pass p).flight = [] := fun p => by rw [h.pass]; rfl
  have hpending : ∀ p, (s.pass p).pending = [] := fun p => by rw [h.pass]; rfl
  have hnone : ∀ p y, y ∉ (s.pass p).flight := fun p y hy => by
    rw [hflight] at hy
    exact absurd hy List.not_mem_nil
  have hlive : ∀ y, s.Live y → y ∈ s.proc.armed := by
    rintro y (hy | ⟨p, hp⟩)
    · exact hy
    · exact absurd hp (hnone p y)
  refine ⟨?_, ?_⟩
  · constructor
    · exact h.valid
    · exact h.tracked
    · exact fun y hy => h.held y (hlive y hy)
    · exact h.heldNodup
    · exact fun p y hy => absurd hy (hnone p y)
    · exact fun p y hy => absurd hy (hnone p y)
    · exact fun p q y hy => absurd hy (hnone p y)
    · intro p
      rw [hflight]
      exact List.nodup_nil
    · exact fun y hy => ⟨(h.tracked.timer y (hlive y hy)).2.1, h.waits y (hlive y hy)⟩
    · intro y z hy hz hown _
      -- both are the timer of the task
      have hy' := (h.tracked.timer y (hlive y hy)).2.2
      have hz' := (h.tracked.timer z (hlive z hz)).2.2
      rw [hown] at hy'
      exact hy'.symm.trans hz'
    · exact fun p y hy => absurd hy (hnone p y)
    · rintro y (hy | ⟨p, hp⟩)
      · exact h.asleep y hy
      · rw [hpending] at hp
        exact absurd hp List.not_mem_nil
  · intro p
    rw [h.net, h.pass]
    constructor
    · rfl
    · exact fun _ => rfl
    · nofun
    · rfl
    · exact List.nodup_nil
    · exact fun e he => absurd he List.not_mem_nil
    · exact fun e he => absurd he List.not_mem_nil
    · exact fun y hy => absurd hy List.not_mem_nil
    · exact fun y hy => absurd hy List.not_mem_nil
    · exact fun e he => absurd he List.not_mem_nil
    · exact List.nodup_nil
    · exact fun _ y _ hbefore => absurd hbefore List.not_mem_nil
    · nofun
    · nofun

/-- **Expired timers.** In every interleaving of passes over a shard with parks, wakes and cancellations: a pass pops only
timers that were in the heap and due when it sampled the clock; it hands each of them to timeout resolution at most once,
and all of them by its end; a timer ends at most one wait, and that wait has the generation it was armed for; a timer that
was in the heap when the clock was sampled, and was not removed and armed again since, is not due, unless a reference to
a task was refused; and a pass that is over has left `timer_callbacks_active` as it was. -/
theorem expired_timers_contract (s₀ s : Shard P) (h₀ : Start s₀) (h : Reachable Shard.move s₀ s) :
    Balanced s₀.callbacks s ∧ ∀ p,
      (∀ e ∈ (s.pass p).popped, e.timer ∈ (s.pass p).before ∧ e.deadline ≤ (s.pass p).now) ∧
      ((s.pass p).handed.Nodup ∧ ∀ y ∈ (s.pass p).handed, ∃ e ∈ (s.pass p).popped, e.timer = y) ∧
      (((s.pass p).ended.map Prod.fst).Nodup ∧ ∀ e ∈ (s.pass p).ended, e.1 ∈ (s.pass p).handed ∧
        ∃ q ∈ (s.pass p).popped, q.timer = e.1 ∧ q.generation = e.2) ∧
      ((s.pass p).refused = false → ∀ y ∈ s.proc.armed, y ∈ (s.pass p).before → y ∉ (s.pass p).since →
        ¬ s.mem.deadline y ≤ (s.pass p).now) ∧
      ((s.pass p).stage = .idle → (s.pass p).handed = (s.pass p).popped.map Popped.timer ∧ s.net p = 0) := by
  have hsound : Sound s := h.induction h₀.sound move_sound
  have hbalanced : Balanced s₀.callbacks s := by
    refine h.induction ?_ fun _ _ _ hb => hb.move
    refine ⟨∅, fun p _ => h₀.net p, ?_⟩
    rw [Finset.sum_empty, add_zero]
  refine ⟨hbalanced, fun p => ?_⟩
  have hp := hsound.passes p
  have hnodup := hp.poppedNodup
  rw [hp.popped] at hnodup
  refine ⟨fun e he => ⟨hp.before e he, hp.due e he⟩, ⟨(List.nodup_append.mp hnodup).1, ?_⟩,
    ⟨(List.nodup_append.mp hp.once).1, hp.ended⟩, hp.left, ?_⟩
  · intro y hy
    have hmem : y ∈ (s.pass p).popped.map Popped.timer := by
      rw [hp.popped]
      exact List.mem_append_left _ hy
    exact List.mem_map.mp hmem
  · intro hidle
    have hempty := hp.idle hidle
    simp only [Pass.flight, List.append_eq_nil_iff] at hempty
    rw [hp.popped, hempty.1.2, List.append_nil, hp.net, if_pos hidle]
    exact ⟨rfl, rfl⟩

end steps

/-! ## Runs -/

/-- A shard with nothing armed. -/
def Shard.empty : Shard Bool := ⟨0, .blank, ⟨fun _ => NULL, 0, 0, NULL, 0⟩, 0, fun _ => .init, [], fun _ => 0⟩

theorem empty_start : Start Shard.empty := by
  have hnone : ∀ x, x ∉ Shard.empty.proc.armed := fun x => List.not_mem_nil
  constructor
  · refine ⟨?_, ?_, rfl, rfl, Nat.le_refl _⟩
    · exact fun j _ hj => absurd hj (Nat.not_lt_zero j)
    · exact fun i hi => absurd hi (Nat.not_lt_zero i)
  · exact ⟨fun x hx => absurd hx (hnone x), fun t ht => absurd rfl ht⟩
  · exact fun x hx => absurd hx (hnone x)
  · exact List.nodup_nil
  · exact fun x hx => absurd hx (hnone x)
  · exact fun x hx => absurd hx (hnone x)
  · exact fun _ => rfl
  · exact fun _ => rfl

/-- Two tasks wait, one for a mutex and one in a sleep, and a third timer is cancelled after a pass has popped the others:
the pass ends both waits. -/
theorem expired_timers_contract_two : ∃ s : Shard Bool,
    (s.pass true).ended = [(12, 1), (11, 1)] ∧ s.callbacks = 0 ∧ s.proc.armed = [] ∧ (s.pass true).stage = .idle ∧
      ((s.pass true).handed = (s.pass true).popped.map Popped.timer ∧ s.net true = 0) := by
  obtain ⟨s, hr, hs⟩ := exists_reachable Shard.move Shard.empty
    (fun s => ((s.pass true).ended, s.callbacks, s.proc.armed, (s.pass true).stage))
    (b := ([(12, 1), (11, 1)], 0, [], .idle))
    [.park 1 .MUTEX 0 (some (11, 10, true)), .park 2 .SLEEP 0 (some (12, 20, true)),
      .park 3 .COND 0 (some (13, 90, true)), .sample true 20, .cancel 3, .advance true true, .advance true true,
      .advance true true, .advance true true, .advance true true, .advance true true, .advance true true,
      .advance true true, .advance true true, .advance true true, .advance true true] (by decide +kernel)
  simp only [Prod.mk.injEq] at hs
  obtain ⟨hended, hcallbacks, harmed, hidle⟩ := hs
  exact ⟨s, hended, hcallbacks, harmed, hidle, ((expired_timers_contract _ s empty_start hr).2 true).2.2.2.2 hidle⟩

/-- A task to which no more references can be counted keeps its timer in the heap: the pass is over, and the timer was
there and due when it sampled the clock, was not cancelled, and is still there. -/
theorem expired_timer_left : ¬ ∀ (s₀ s : Shard Bool), Start s₀ → Reachable Shard.move s₀ s → ∀ p,
    (s.pass p).stage = .idle → ∀ y ∈ s.proc.armed, y ∈ (s.pass p).before → y ∉ (s.pass p).since →
      ¬ s.mem.deadline y ≤ (s.pass p).now := by
  intro hall
  obtain ⟨s, hr, hs⟩ := exists_reachable Shard.move Shard.empty
    (fun s => ((s.pass true).stage, s.proc.armed, (s.pass true).before, (s.pass true).since,
      decide (s.mem.deadline 11 ≤ (s.pass true).now)))
    (b := (.idle, [11], [11], [], true))
    [.park 1 .SLEEP 0 (some (11, 10, true)), .scanRefs 1 uintMax, .sample true 20, .advance true true]
    (by decide +kernel)
  simp only [Prod.mk.injEq, decide_eq_true_eq] at hs
  obtain ⟨hidle, harmed, hbefore, hsince, hdue⟩ := hs
  refine hall _ s empty_start hr true hidle 11 ?_ ?_ ?_ hdue
  · rw [harmed]
    exact List.mem_singleton_self 11
  · rw [hbefore]
    exact List.mem_singleton_self 11
  · rw [hsince]
    exact List.not_mem_nil

end Llam.Timer

import Llam.Broker.Issued
import Llam.Service.Orderly

/-!
# What nobody was told

A thread that has created an object, a task or a ring for a client has not told the client yet (`Job.Backed`): what it has
created is there, has one token and is used by nobody. No two threads hold the same token (`Secrets`). This lasts until the
response is delivered or rolled back (`Section.secrets`).
-/

namespace Llam.Service

open Llam.Lib Llam.Broker Llam.Ring Function

variable {n : Nat}

/-- The tokens that the thread would have to roll back. -/
def Job.holds : Job → List Token
  | .reply p r => match p.request.undo r with
    | .object t => [t]
    | _ => []
  | .batch b => b.created
  | .unwind _ tokens _ => tokens
  | _ => []

/-- The session of a ring that its client does not have yet. -/
structure Session.Withheld (x : Session) (p : Pending) : Prop where
  active : x.active = true
  owns : x.ownsMapping = true
  ring : x.ring.isSome = true
  subject : x.subjectId = p.subject
  idle : x.busy = false
  serial : x.serial = p.serials

/-- A client may have the token, and it is one of the subject's. -/
def Granted (s : State n) (A : UInt64) (t : Token) : Prop := s.known t = true ∧ t.subjectId = A

/-- **What a thread has created** is there. -/
def Job.Backed (s : State n) (sessions : Sessions) (k : Fin n) : Job → Prop
  | .spawning p => ∃ c, s.calls k = some c ∧ c.subject = p.subject ∧ (s.control.tasks c.index).id = p.next .TASK
  | .reply p r => match p.request.undo r with
    | .nothing => True
    | .object t => ∃ f i, Held s t f i ∧ t.slot = p.next f ∧ t.subjectId = p.subject
    | .session id => ∃ i : Fin sessionCount, id = UInt64.ofNat (i.val + 1) ∧ (sessions i).Withheld p
  | .batch b => ∀ t ∈ b.created, Granted s b.subject t
  | .unwind A tokens _ => ∀ t ∈ tokens, Granted s A t
  | _ => True

structure Secrets (s : State n) (sessions : Sessions) (jobs : Fin n → Job) : Prop where
  backed : ∀ k, (jobs k).Backed s sessions k
  apart : ∀ k l t, t ∈ (jobs k).holds → t ∈ (jobs l).holds → k = l
  alone : ∀ k l id, (jobs k).secretSession = some id → (jobs l).secretSession = some id → k = l

section Backed

variable {s s' : State n} {sessions sessions' : Sessions} {jobs : Fin n → Job} {k : Fin n} {j : Job} {p : Pending}
  {r : Response} {t : Token} {id : UInt64}

theorem Secrets.backedAt (h : Secrets s sessions jobs) (hjob : jobs k = j) : j.Backed s sessions k := hjob ▸ h.backed k

theorem backed_object (h : (Job.reply p r).Backed s sessions k) (hundo : p.request.undo r = .object t) :
    ∃ f i, Held s t f i ∧ t.slot = p.next f ∧ t.subjectId = p.subject := by
  simp only [Job.Backed, hundo] at h
  exact h

theorem backed_session (h : (Job.reply p r).Backed s sessions k) (hundo : p.request.undo r = .session id) :
    ∃ i : Fin sessionCount, id = UInt64.ofNat (i.val + 1) ∧ (sessions i).Withheld p := by
  simp only [Job.Backed, hundo] at h
  exact h

theorem holds_object (hundo : p.request.undo r = .object t) : (Job.reply p r).holds = [t] := by
  simp only [Job.holds, hundo]

theorem secret_holds (h : j.secret = some t) : t ∈ j.holds := by
  unfold Job.secret at h
  split at h
  · split at h
    · rename_i hundo
      cases h
      rw [holds_object hundo]
      exact List.mem_singleton_self t
    · cases h
  · cases h

theorem secretSession_eq (h : j.secretSession = some id) : ∃ p r, j = .reply p r ∧ p.request.undo r = .session id := by
  cases j with
  | reply p r =>
    cases hundo : p.request.undo r with
    | nothing | object => simp [Job.secretSession, hundo] at h
    | session =>
      simp only [Job.secretSession, hundo, Option.some.injEq] at h
      exact ⟨p, r, rfl, h ▸ hundo⟩
  | _ => cases h

/-- What a thread holds is known. -/
theorem Job.Backed.known (h : j.Backed s sessions k) (ht : t ∈ j.holds) : s.known t = true := by
  cases j with
  | idle | spawning | reclaimRings | reclaimObjects => cases ht
  | reply p r =>
    cases hundo : p.request.undo r with
    | nothing | session => simp [Job.holds, hundo] at ht
    | object u =>
      rw [holds_object hundo] at ht
      cases List.mem_singleton.mp ht
      obtain ⟨f, i, hheld, -⟩ := backed_object h hundo
      exact hheld.known
  | batch b | unwind A tokens reclaim => exact (h t ht).1

/-- What a step leaves to the thread. -/
structure Leaves (s s' : State n) (sessions sessions' : Sessions) (k : Fin n) (j : Job) : Prop where
  call : ∀ p, j = .spawning p → s'.calls k = s.calls k
  task : ∀ c, s.calls k = some c → s'.calls k = some c → (s'.control.tasks c.index).id = (s.control.tasks c.index).id
  held : ∀ t f i, j.secret = some t → Held s t f i → Held s' t f i
  known : ∀ t, s.known t = true → s'.known t = true
  session : ∀ i : Fin sessionCount, j.secretSession = some (UInt64.ofNat (i.val + 1)) → sessions' i = sessions i

theorem Job.Backed.step (h : j.Backed s sessions k) (hleaves : Leaves s s' sessions sessions' k j) :
    j.Backed s' sessions' k := by
  cases j with
  | idle | reclaimRings | reclaimObjects => trivial
  | spawning p =>
    obtain ⟨c, hc, hsubject, hid⟩ := h
    have hc' := (hleaves.call p rfl).trans hc
    exact ⟨c, hc', hsubject, (hleaves.task c hc hc').trans hid⟩
  | reply p r =>
    cases hundo : p.request.undo r with
    | nothing =>
      simp only [Job.Backed, hundo]
    | object t =>
      simp only [Job.Backed, hundo]
      obtain ⟨f, i, hheld, hslot⟩ := backed_object h hundo
      exact ⟨f, i, hleaves.held t f i (by simp only [Job.secret, hundo]) hheld, hslot⟩
    | session id =>
      simp only [Job.Backed, hundo]
      obtain ⟨i, rfl, hwithheld⟩ := backed_session h hundo
      refine ⟨i, rfl, ?_⟩
      rw [hleaves.session i (by simp only [Job.secretSession, hundo])]
      exact hwithheld
  | batch b | unwind A tokens reclaim => exact fun t ht => ⟨hleaves.known t (h t ht).1, (h t ht).2⟩

/-- What no two threads had before, and no other thread has with the new job, no two threads have. -/
theorem update_apart {α : Type} {R : Job → α → Prop} (h : ∀ k l a, R (jobs k) a → R (jobs l) a → k = l)
    (hnew : ∀ l, l ≠ k → ∀ a, R j a → ¬ R (jobs l) a) (l m : Fin n) (a : α) (hl : R (update jobs k j l) a)
    (hm : R (update jobs k j m) a) : l = m := by
  rcases eq_or_ne l k with rfl | hne <;> rcases eq_or_ne m l with heq | hne'
  · exact heq.symm
  · rw [update_self] at hl
    rw [update_of_ne hne'] at hm
    exact absurd hm (hnew m hne' a hl)
  · exact heq.symm
  · rw [update_of_ne hne] at hl
    rw [update_apply] at hm
    split at hm
    · exact absurd hl (hnew l hne a hm)
    · exact h l m a hl hm

/-- **The general step**: a thread does something else, and leaves the others what they have. -/
theorem Secrets.step (h : Secrets s sessions jobs) (hleaves : ∀ l, l ≠ k → Leaves s s' sessions sessions' l (jobs l))
    (hbacked : j.Backed s' sessions' k) (hnew : ∀ t ∈ j.holds, t ∈ (jobs k).holds ∨ s.known t = false)
    (hsession : ∀ id, j.secretSession = some id → ∀ l, l ≠ k → (jobs l).secretSession ≠ some id) :
    Secrets s' sessions' (update jobs k j) := by
  -- what the thread holds now no other thread holds
  have hapart : ∀ l, l ≠ k → ∀ t ∈ j.holds, t ∉ (jobs l).holds := by
    intro l hne t ht hl
    rcases hnew t ht with hk | hunknown
    · exact hne (h.apart l k t hl hk)
    · cases hunknown.symm.trans ((h.backed l).known hl)
  refine ⟨fun l => ?_, update_apart (R := fun j t => t ∈ j.holds) h.apart hapart,
    update_apart (R := fun j id => j.secretSession = some id) h.alone fun l hne id hid => hsession id hid l hne⟩
  rcases eq_or_ne l k with rfl | hne
  · rw [update_self]
    exact hbacked
  · rw [update_of_ne hne]
    exact (h.backed l).step (hleaves l hne)

theorem Leaves.refl : Leaves s s sessions sessions k j :=
  ⟨fun _ _ => rfl, fun _ _ _ => rfl, fun _ _ _ _ h => h, fun _ h => h, fun _ _ => rfl⟩

/-- The tables take a step that does not use what the thread holds. -/
theorem leaves_exec (hinv : Inv s) {a : Action n} {out : Option Outcome} (hexec : s.exec a = some (s', out))
    (hcall : ∀ p, j = .spawning p → s'.calls k = s.calls k) (hkeeps : ∀ t, j.secret = some t → ¬ a.disposes t) :
    Leaves s s' sessions sessions k j := by
  have hinv' : Inv s' := ⟨(exec_keeps hinv hexec).changes.ok hinv.registry, (exec_keeps hinv hexec).tasks⟩
  refine ⟨hcall, fun c hc hc' => ?_, fun t f i ht hheld => exec_held hheld hinv hexec (hkeeps t ht),
    fun t ht => exec_known hinv hexec ht, fun _ _ => rfl⟩
  exact ((exec_moves hinv hexec).continues hinv (hinv.tasks.call k c hc).active (hinv'.tasks.call k c hc').active).id

theorem Secrets.all (h : Secrets s sessions jobs) (hleaves : ∀ l, Leaves s s' sessions sessions' l (jobs l)) :
    Secrets s' sessions' jobs :=
  ⟨fun l => (h.backed l).step (hleaves l), h.apart, h.alone⟩

/-- A job that holds nothing new and has told nobody of a ring. -/
theorem Secrets.quiet (h : Secrets s sessions jobs)
    (hleaves : ∀ l, l ≠ k → Leaves s s' sessions sessions' l (jobs l)) (hbacked : j.Backed s' sessions' k)
    (hholds : j.holds ⊆ (jobs k).holds) (hsession : j.secretSession = none) :
    Secrets s' sessions' (update jobs k j) := by
  refine h.step hleaves hbacked (fun t ht => .inl (hholds ht)) (fun id hid => ?_)
  cases hsession.symm.trans hid

end Backed

/-! ## Requests -/

section Requests

variable {r : Request} {out : Outcome} {t : Token} {id : UInt64} {o : Op}

theorem undo_response (h : r.undo (r.response out) = .object t) : out.token = some t := by
  unfold Request.response at h
  split at h
  · cases h
  unfold Request.undo at h
  rw [if_neg (by simp), if_neg (by simp)] at h
  split at h <;> first | (rename_i htoken; cases h; exact htoken) | cases h

theorem undo_response_session : r.undo (r.response out) ≠ .session id := by
  unfold Request.response
  split
  · nofun
  unfold Request.undo
  rw [if_neg (by simp), if_neg (by simp)]
  split <;> nofun

/-- A response with the token of an object is one to a request that creates. -/
theorem asks_creates {resp : Response} (hasks : r.asks = .op o) (hundo : r.undo resp = .object t) :
    ∃ f rights, o.creates = some (f, rights) := by
  have hcode : WireOp.ofCode r.op = some .CREATE_BUFFER ∨ WireOp.ofCode r.op = some .CREATE_CHANNEL ∨
      WireOp.ofCode r.op = some .REGISTER_DESCRIPTOR ∨ WireOp.ofCode r.op = some .TASK_SPAWN := by
    unfold Request.undo at hundo
    split at hundo
    · cases hundo
    split at hundo
    · cases hundo
    split at hundo
    · rename_i hcode _
      exact .inl hcode
    · rename_i hcode _
      exact .inr (.inl hcode)
    · rename_i hcode _
      exact .inr (.inr (.inl hcode))
    · rename_i hcode _
      exact .inr (.inr (.inr hcode))
    · cases hundo
  have hgrant : ∀ {f : Family} {a : Asks}, r.granted f a = .op o → a = .op o := by
    intro f a h
    unfold Request.granted at h
    split at h
    · cases h
    · exact h
  unfold Request.asks at hasks
  split at hasks
  · cases hasks
  split at hasks
  · cases hasks
  rcases hcode with hcode | hcode | hcode | hcode <;> rw [hcode] at hasks <;> dsimp only at hasks
  · unfold Request.createGrant at hasks
    split at hasks
    · cases hasks
    · cases hgrant hasks
      exact ⟨_, _, rfl⟩
  · unfold Request.createGrant at hasks
    split at hasks
    · cases hasks
    · cases hgrant hasks
      exact ⟨_, _, rfl⟩
  · split at hasks
    · cases hasks
    · cases hgrant hasks
      exact ⟨_, _, rfl⟩
  · have hspawn := hgrant hasks
    split at hspawn <;> cases hspawn

theorem undo_ring {i : Fin sessionCount} {u : Undo} (h : r.undo (Request.ringResponse i) = u) :
    u = .nothing ∨ u = .session (UInt64.ofNat (i.val + 1)) := by
  unfold Request.undo Request.ringResponse at h
  rw [if_neg (by simp)] at h
  split at h
  · exact .inr h.symm
  · split at h <;> first | exact .inl h.symm | (rename_i htoken; cases htoken)

end Requests

/-! ## Sections -/

section Sections

variable {w w' : World n} {k l : Fin n} {a : Action n} {core : State n} {out : Option Outcome} {t : Token} {A : UInt64}
  {i : Fin sessionCount} {j : Job}

def World.Secrets (w : World n) : Prop := Service.Secrets w.core w.sessions w.jobs

/-- A step for the thread `k`, or for nobody: it presents no token that the responses of other threads carry. -/
inductive Minds (w : World n) (k : Fin n) : Action n → Prop
  | op {A : UInt64} {o : Op} {overtakes : Nat → Nat} {env : Env} (hopen : w.Open o) : Minds w k (.op A o overtakes env)
  | spawn {A : UInt64} {code : UInt32} {arg0 : UInt64} {rights : Rights} {env : Env} :
    Minds w k (.spawn k A code arg0 rights env)
  | thread {a : Action n} (ha : ofThread k a = true) : Minds w k a

variable {p : Pending} {b : Batch} {sub : Submission} {sessions : Sessions} {ring : Nat} {o : Outcome}
  {rest : List Submission} {c : Completion}

theorem Begins.minds (h : Begins w k p a) : Minds w k a := by
  cases h with
  | op _ hopen => exact .op hopen
  | spawn => exact .spawn

theorem Enters.minds (h : Enters w k b sub a) : Minds w k a := by
  cases h with
  | op _ hopen => exact .op hopen
  | spawn => exact .spawn

theorem hidden_of_secret (h : (w.jobs l).secret = some t) : w.hidden t = true := decide_eq_true ⟨l, h⟩

theorem Minds.disposes (h : Minds w k a) (hl : (w.jobs l).secret = some t) : ¬ a.disposes t := by
  cases h with
  | op hopen =>
    rintro (hpresents | hrollback | ⟨f, hreclaim, -⟩)
    · cases (hidden_of_secret hl).symm.trans (hopen t hpresents)
    · cases hrollback
    · cases hreclaim
  | spawn => rintro (hpresents | hrollback | ⟨f, hreclaim, -⟩) <;> contradiction
  | thread ha =>
    rintro (hpresents | rfl | ⟨f, rfl, -⟩)
    · cases a <;> first | cases hpresents | cases ha
    · cases ha
    · cases ha

theorem ofNobody_disposes (ha : ofNobody a = true) : ¬ a.disposes t := by
  rintro (hpresents | rfl | ⟨f, rfl, -⟩)
  · cases a <;> first | cases hpresents | cases ha
  · cases ha
  · cases ha

theorem Minds.calls (h : Minds w k a) {s s' : State n} (hexec : s.exec a = some (s', out)) (hne : l ≠ k) :
    s'.calls l = s.calls l := by
  cases h with
  | op => rw [exec_other_calls rfl hexec]
  | spawn =>
    rcases (exec_spawn_calls hexec).2 with ⟨rfl, -⟩ | ⟨-, c, hcalls, -⟩
    · rfl
    · rw [hcalls, update_of_ne hne]
  | thread ha =>
    obtain ⟨c, -, ⟨-, c', hcalls, -⟩ | ⟨-, hcalls⟩⟩ := exec_thread_calls ha hexec <;>
      rw [hcalls, update_of_ne hne]

theorem Minds.leaves (h : Minds w k a) (hinv : Inv w.core) (hexec : w.core.exec a = some (core, out)) (hne : l ≠ k) :
    Leaves w.core core w.sessions w.sessions l (w.jobs l) :=
  leaves_exec hinv hexec (fun _ _ => h.calls hexec hne) fun _ ht => h.disposes ht

theorem toNat_sessionId (i : Fin sessionCount) : (UInt64.ofNat (i.val + 1)).toNat = i.val + 1 :=
  UInt64.toNat_ofNat_of_lt' (Nat.lt_trans (Nat.succ_lt_succ i.isLt) (by decide))

theorem sessionId_inj {i i' : Fin sessionCount} (h : UInt64.ofNat (i.val + 1) = UInt64.ofNat (i'.val + 1)) : i = i' := by
  have hnat := congrArg UInt64.toNat h
  rw [toNat_sessionId, toNat_sessionId] at hnat
  exact Fin.ext (Nat.succ.inj hnat)

/-- Sessions that nobody was told of stay as they are. -/
theorem leaves_sessions (h : ∀ (i : Fin sessionCount) (p : Pending), (w.sessions i).Withheld p →
      (w.jobs l).secretSession = some (UInt64.ofNat (i.val + 1)) → (w.jobs l).serves = some p.subject → sessions i = w.sessions i)
    (hw : w.Secrets) : Leaves w.core w.core w.sessions sessions l (w.jobs l) := by
  refine ⟨fun _ _ => rfl, fun _ _ _ => rfl, fun _ _ _ _ h => h, fun _ h => h, fun i hi => ?_⟩
  obtain ⟨p, r, hjob, hundo⟩ := secretSession_eq hi
  obtain ⟨i', hid, hwithheld⟩ := backed_session (hw.backedAt hjob) hundo
  obtain rfl : i = i' := sessionId_inj hid
  exact h i p hwithheld hi (by rw [hjob]; rfl)

/-- A session that is got is not one that nobody was told of, or stays as it is. -/
theorem got_leaves (hw : w.Secrets) {x : Session} {serial : Nat} (hgot : (w.sessions i).Got ring A serial x) :
    Leaves w.core w.core w.sessions (update w.sessions i x) l (w.jobs l) := by
  refine leaves_sessions (fun i' p hwithheld _ _ => ?_) hw
  rcases eq_or_ne i' i with rfl | hne
  · rw [update_self]
    rcases hgot with ⟨rfl, -, -⟩ | ⟨-, hfree⟩
    · rfl
    · cases hfree.symm.trans hwithheld.active
  · exact update_of_ne hne ..

theorem Finds.leaves (h : Finds w A w' i) (hw : w.Secrets) :
    Leaves w.core w'.core w.sessions w'.sessions l (w.jobs l) := by
  cases h with
  | owned => exact .refl
  | direct _ hfound =>
    obtain ⟨x, hgot, rfl⟩ := sessionGet_ok hfound
    exact got_leaves hw hgot

theorem Finds.secrets (h : Finds w A w' i) (hw : w.Secrets) : w'.Secrets := by
  have hall := Service.Secrets.all hw fun l => h.leaves (l := l) hw
  rw [← h.jobs] at hall
  exact hall

/-- A ring that its client has not got has no submissions. -/
theorem reserveBatch_initial (x : Session) (max : Nat) (submissions : List Submission) :
    x.reserveBatch .initial max ≠ .ok submissions := by
  unfold Session.reserveBatch
  split
  · nofun
  split
  · nofun
  rename_i hhead
  split
  · nofun
  split
  · nofun
  rename_i htail
  exact absurd (by rw [← not_not.mp hhead]; rfl) htail

/-- A session that is reserved is one that its client has got. -/
theorem reserve_told {mem : Shared} {max : Nat} {submissions : List Submission}
    (h : (w.sessions i).reserveBatch (w.memory i mem) max = .ok submissions) : w.withheld i = false := by
  rw [Bool.eq_false_iff]
  intro hwithheld
  rw [World.memory, if_pos hwithheld] at h
  exact reserveBatch_initial _ _ _ h

/-- A new mapping gets a session of its own. -/
theorem registerMapping_new {sessions' : Sessions} {serial : Nat} {refused : Option Errno}
    (h : registerMapping sessions ring A serial refused = .ok (sessions', i))
    (hnew : ∀ l, (sessions l).active = true → (sessions l).ring ≠ some ring) : (sessions i).active = false ∧
      sessions' = update sessions i { Session.opened ring A serial with ownsMapping := true } := by
  unfold registerMapping at h
  split at h
  · cases h
  · cases h
  rename_i hget
  split at h
  · cases h
  cases h
  unfold sessionGet at hget
  split at hget
  · rename_i l hfind
    have hfound := List.find?_some hfind
    rw [Bool.and_eq_true, beq_iff_eq] at hfound
    exact absurd hfound.2 (hnew l hfound.1)
  split at hget
  · cases hget
  rename_i hfind
  cases hget
  have hfree := List.find?_some hfind
  rw [Bool.not_eq_true'] at hfree
  refine ⟨hfree, ?_⟩
  rw [update_idem, update_self]
  rfl

/-- The tokens that a batch has created are those of its spawns. -/
theorem request_op_created {data : Bytes} {o : Op} (h : sub.request data = .op o) :
    RingOp.ofCode sub.op ≠ some .TASK_SPAWN := by
  intro hop
  unfold Submission.request at h
  rw [hop] at h
  dsimp only [Request.within] at h
  split at h
  · cases h
  · split at h <;> cases h

/-- A spawn that ends tells its token, which nobody had before. -/
theorem exec_thread_new {s s' : State n} (hinv : Inv s) (hcalls : s.CallsNamed) (ha : ofThread k a = true)
    (hexec : s.exec a = some (s', some o)) (ht : o.token = some t) :
    ∃ c, s.calls k = some c ∧ Held s' t .TASK c.index ∧ c.Named s t ∧ s.known t = false := by
  have hnew : (∃ started, a = .finish k started) ∨ a = .store k := by
    cases a with
    | issue l overtakes env =>
      cases State.exec_executes hexec
      cases ht
    | finish l started => exact .inl ⟨started, by rw [beq_iff_eq.mp ha]⟩
    | store l => exact .inr (by rw [beq_iff_eq.mp ha])
    | op | spawn | fiber | revokeAll | reclaim | rollback => cases ha
  obtain ⟨c, hc, htoken, hheld⟩ := exec_spawn_new hinv hcalls hexec hnew ht
  refine ⟨c, hc, hheld, hcalls k c t hc htoken, ?_⟩
  rw [Bool.eq_false_iff]
  intro hknown
  exact (known_iff.mp hknown).2 k (by rw [hc]; exact htoken)

/-- What the sections keep besides, as far as it matters here. -/
structure World.Sound (w : World n) : Prop where
  inv : Inv w.core
  named : w.core.CallsNamed
  batched : w.Batched
  called : w.Called
  orderly : w.Orderly

/-- The subject of a response has its transport. -/
theorem World.Sound.served (hw : w.Sound) {B : UInt64} (h : (w.jobs l).serves = some B) (hgone : w.Gone A) : B ≠ A := by
  rintro rfl
  rcases hw.orderly.served l B h with rfl | hconnected
  · exact hw.orderly.zero hgone.1
  · exact hgone.2 hconnected

/-- A response whose token is that of a new object. -/
theorem respond_secrets (h : w.Secrets) (hleaves : ∀ l, l ≠ k → Leaves w.core core w.sessions w.sessions l (w.jobs l))
    (hobject : ∀ t, p.request.undo (p.request.response o) = .object t →
      (∃ f i, Held core t f i ∧ t.slot = p.next f ∧ t.subjectId = p.subject) ∧ w.core.known t = false) :
    Service.Secrets core w.sessions (update w.jobs k (.reply p (p.request.response o))) := by
  refine h.step hleaves ?_ (fun t ht => .inr ?_) (fun id hid => ?_)
  · cases hundo : p.request.undo (p.request.response o) with
    | nothing => simp only [Job.Backed, hundo]
    | object t =>
      simp only [Job.Backed, hundo]
      exact (hobject t hundo).1
    | session id => exact absurd hundo undo_response_session
  · cases hundo : p.request.undo (p.request.response o) with
    | nothing => simp [Job.holds, hundo] at ht
    | object u =>
      rw [holds_object hundo] at ht
      cases List.mem_singleton.mp ht
      exact (hobject t hundo).2
    | session id => exact absurd hundo undo_response_session
  · obtain ⟨_, _, heq, hundo⟩ := secretSession_eq hid
    cases heq
    exact absurd hundo undo_response_session

theorem ask_secrets (hw : w.Sound) (h : w.Secrets) (hfresh : w.Fresh k p)
    (hbegins : Begins w k p a) (hexec : w.core.exec a = some (core, some o)) :
    Service.Secrets core w.sessions (update w.jobs k (.reply p (p.request.response o))) := by
  refine respond_secrets h (fun l hne => hbegins.minds.leaves hw.inv hexec hne) fun t hundo => ?_
  cases hbegins with
  | op hasks =>
    obtain ⟨f, rights, hcreates⟩ := asks_creates hasks hundo
    obtain ⟨⟨i, hheld⟩, hslot, hsubject, hnew⟩ := exec_op_new hw.inv hw.named hexec hcreates (undo_response hundo)
    refine ⟨⟨f, i, hheld, ?_, hsubject⟩, ?_⟩
    · rw [hfresh.next]
      exact hslot
    · rw [Bool.eq_false_iff]
      exact fun hknown => hnew (known_iff.mp hknown).1
  | spawn =>
    rcases (exec_spawn_calls hexec).2 with ⟨-, e, he⟩ | ⟨hnone, -⟩
    · cases he
      cases hundo
    · cases hnone

theorem spawned_secrets (hw : w.Sound) (h : w.Secrets) (ha : ofThread k a = true)
    (hjob : w.jobs k = .spawning p) (hexec : w.core.exec a = some (core, some o)) :
    Service.Secrets core w.sessions (update w.jobs k (.reply p (p.request.response o))) := by
  have hminds : Minds w k a := .thread ha
  refine respond_secrets h (fun l hne => hminds.leaves hw.inv hexec hne) fun t hundo => ?_
  obtain ⟨c, hc, hheld, hnamed, hunknown⟩ := exec_thread_new hw.inv hw.named ha hexec (undo_response hundo)
  obtain ⟨c', hc', hsubject, hid⟩ := h.backedAt hjob
  cases hc.symm.trans hc'
  refine ⟨⟨.TASK, c.index, hheld, ?_, hnamed.subject.trans hsubject⟩, hunknown⟩
  exact (Slot.named_iff.mp hnamed.named).2.1.symm.trans hid

theorem createRing_secrets (h : w.Secrets) {refused : Option Errno}
    (hserials : p.serials = w.serials) (hregister : registerMapping w.sessions ring p.subject w.serials refused = .ok (sessions, i))
    (hnew : w.inUse ring = false) :
    Service.Secrets w.core sessions (update w.jobs k (.reply p (Request.ringResponse i))) := by
  have hunused : ∀ l, (w.sessions l).active = true → (w.sessions l).ring ≠ some ring := by
    intro l hactive hring
    exact absurd ⟨l, hactive, hring⟩ (of_decide_eq_false hnew)
  obtain ⟨hfree, rfl⟩ := registerMapping_new hregister hunused
  have hother : ∀ (i' : Fin sessionCount) (q : Pending), (w.sessions i').Withheld q → i' ≠ i := by
    rintro i' q hwithheld rfl
    cases hfree.symm.trans hwithheld.active
  refine h.step (fun l _ => ?_) ?_ (fun t ht => ?_) (fun id hid l _ hl => ?_)
  · exact leaves_sessions (fun i' q hwithheld _ _ => update_of_ne (hother i' q hwithheld) ..) h
  · rcases undo_ring (r := p.request) (i := i) rfl with hundo | hundo
    · simp only [Job.Backed, hundo]
    simp only [Job.Backed, hundo]
    refine ⟨i, rfl, ?_⟩
    rw [update_self]
    exact ⟨rfl, rfl, rfl, rfl, rfl, hserials.symm⟩
  · rcases undo_ring (r := p.request) (i := i) rfl with hundo | hundo <;> simp [Job.holds, hundo] at ht
  · obtain ⟨_, _, heq, hundo⟩ := secretSession_eq hid
    cases heq
    rcases undo_ring hundo with hnothing | hsession
    · cases hnothing
    cases hsession
    obtain ⟨q, r, hjob, hundo'⟩ := secretSession_eq hl
    obtain ⟨i', hi', hwithheld⟩ := backed_session (h.backedAt hjob) hundo'
    exact hother i' q hwithheld (sessionId_inj hi').symm

theorem goesOn_secrets (hw : w.Sound) (h : w.Secrets) (ha : ofThread k a = true)
    (hexec : w.core.exec a = some (core, none)) : Service.Secrets core w.sessions w.jobs := by
  have hminds : Minds w k a := .thread ha
  have hbacked : (w.jobs k).Backed core w.sessions k := by
    obtain ⟨c, hc, ⟨-, c', hcalls, hsubject⟩ | ⟨⟨_, hsome⟩, -⟩⟩ := exec_thread_calls ha hexec
    · have hc' : core.calls k = some c' := by rw [hcalls, update_self]
      have hinv' : Inv core := ⟨(exec_keeps hw.inv hexec).changes.ok hw.inv.registry, (exec_keeps hw.inv hexec).tasks⟩
      have hindex : c'.index = c.index := by
        rcases exec_calls hexec hc' with ⟨d, hd, hindex, -⟩ | ⟨hnone, -⟩ | ⟨d, t, hd, -, rfl, -⟩
        · cases hc.symm.trans hd
          exact hindex
        · cases hc.symm.trans hnone
        · cases hc.symm.trans hd
          rfl
      cases hjob : w.jobs k with
      | spawning p =>
        obtain ⟨d, hd, hsubject', hid⟩ := h.backedAt hjob
        cases hc.symm.trans hd
        refine ⟨c', hc', hsubject.trans hsubject', ?_⟩
        have hactive' := (hinv'.tasks.call k c' hc').active
        rw [hindex] at hactive' ⊢
        exact ((exec_moves hw.inv hexec).continues hw.inv (hw.inv.tasks.call k c hc).active hactive').id.trans hid
      | batch b =>
        have hold := h.backedAt hjob
        exact fun t ht => ⟨exec_known hw.inv hexec (hold t ht).1, (hold t ht).2⟩
      | _ =>
        have hspawns := hw.called.call k c hc
        rw [hjob] at hspawns
        cases hspawns
    · cases hsome
  have hstep : Service.Secrets core w.sessions (update w.jobs k (w.jobs k)) := by
    refine h.step (fun l hne => hminds.leaves hw.inv hexec hne) hbacked (fun t ht => .inl ht) (fun id hid l hne hl => ?_)
    exact hne (h.alone l k id hl hid)
  rw [update_eq_self] at hstep
  exact hstep

/-- The batch after a submission. -/
def Batch.after (b : Batch) (sub : Submission) (rest : List Submission) (c : Completion) (token : Option Token) : Batch :=
  { b with
    todo := rest
    done := b.done ++ [c]
    created := if RingOp.ofCode sub.op = some .TASK_SPAWN then b.created ++ token.toList else b.created
    spawning := false }

/-- A submission of a batch is done; a spawn leaves a new token. -/
theorem complete_secrets (h : w.Secrets) {token : Option Token} (hjob : w.jobs k = .batch b)
    (hleaves : ∀ l, l ≠ k → Leaves w.core core w.sessions w.sessions l (w.jobs l))
    (hknown : ∀ t, w.core.known t = true → core.known t = true)
    (htoken : RingOp.ofCode sub.op = some .TASK_SPAWN → ∀ t, token = some t →
      Granted core b.subject t ∧ w.core.known t = false) :
    Service.Secrets core w.sessions (update w.jobs k (.batch (b.after sub rest c token))) := by
  have hold := h.backedAt hjob
  have hcreated : ∀ t, t ∈ (if RingOp.ofCode sub.op = some .TASK_SPAWN then b.created ++ token.toList else b.created) →
      t ∈ b.created ∨ Granted core b.subject t ∧ w.core.known t = false := by
    intro t ht
    split at ht
    · rename_i hspawn
      rcases List.mem_append.mp ht with ht | ht
      · exact .inl ht
      · exact .inr (htoken hspawn t (Option.mem_toList.mp ht))
    · exact .inl ht
  refine h.step hleaves (fun t ht => ?_) (fun t ht => ?_) nofun
  · rcases hcreated t ht with hmem | ⟨hgranted, -⟩
    · exact ⟨hknown t (hold t hmem).1, (hold t hmem).2⟩
    · exact hgranted
  · rw [hjob]
    exact (hcreated t ht).imp id And.right

theorem execute_secrets (hw : w.Sound) (h : w.Secrets) (hjob : w.jobs k = .batch b) (henters : Enters w k b sub a)
    (hexec : w.core.exec a = some (core, some o)) :
    Service.Secrets core w.sessions (update w.jobs k (.batch (b.after sub rest c o.token))) := by
  refine complete_secrets h hjob (fun l hne => henters.minds.leaves hw.inv hexec hne)
    (fun t ht => exec_known hw.inv hexec ht) (fun hspawn t ht => ?_)
  cases henters with
  | op hrequest => exact absurd hspawn (request_op_created hrequest)
  | spawn =>
    rcases (exec_spawn_calls hexec).2 with ⟨-, e, he⟩ | ⟨hnone, -⟩
    · cases he
      cases ht
    · cases hnone

theorem spawnDone_secrets (hw : w.Sound) (h : w.Secrets) (hjob : w.jobs k = .batch b) (ha : ofThread k a = true)
    (hexec : w.core.exec a = some (core, some o)) :
    Service.Secrets core w.sessions (update w.jobs k (.batch (b.after sub rest c o.token))) := by
  have hminds : Minds w k a := .thread ha
  refine complete_secrets h hjob (fun l hne => hminds.leaves hw.inv hexec hne)
    (fun t ht => exec_known hw.inv hexec ht) (fun _ t ht => ?_)
  obtain ⟨d, hd, hheld, hnamed, hunknown⟩ := exec_thread_new hw.inv hw.named ha hexec ht
  refine ⟨⟨hheld.known, ?_⟩, hunknown⟩
  have hspawns := hw.called.call k d hd
  rw [hjob, Job.spawns] at hspawns
  split at hspawns
  · exact hnamed.subject.trans (Option.some.inj hspawns).symm
  · cases hspawns

/-- The token of another thread's response is rolled back. -/
theorem rollback_leaves (hw : w.Sound) (h : w.Secrets) (ht : t ∈ (w.jobs k).holds)
    (hexec : w.core.exec (.rollback t) = some (core, out)) (hne : l ≠ k) :
    Leaves w.core core w.sessions w.sessions l (w.jobs l) := by
  refine leaves_exec hw.inv hexec (fun _ _ => by rw [exec_other_calls rfl hexec]) fun u hu => ?_
  rintro (hpresents | hrollback | ⟨f, hreclaim, -⟩)
  · cases hpresents
  · cases hrollback
    exact hne (h.apart l k t (secret_holds hu) ht)
  · cases hreclaim

theorem withdraw_leaves (h : w.Secrets) {r : Response} {id : UInt64} (hjob : w.jobs k = .reply p r)
    (hundo : p.request.undo r = .session id) (hne : l ≠ k) :
    Leaves w.core w.core w.sessions (forgetSession w.sessions id p.subject) l (w.jobs l) := by
  refine leaves_sessions (fun i q hwithheld hl _ => ?_) h
  rcases forgetSession_cases w.sessions id p.subject with hsame | ⟨i', -, -, -, hid, hcleared⟩
  · rw [hsame]
  rw [hcleared, update_of_ne]
  rintro rfl
  have hid' : id = UInt64.ofNat (i.val + 1) := UInt64.toNat_inj.mp (hid.trans (toNat_sessionId i).symm)
  refine hne (h.alone l k id ?_ ?_)
  · rw [hid']
    exact hl
  · rw [hjob]
    simp only [Job.secretSession, hundo]

/-- A session that a batch works on is not one that nobody was told of. -/
theorem publish_leaves (hw : w.Sound) (h : w.Secrets) {x : Session} (hjob : w.jobs k = .batch b) :
    Leaves w.core w.core w.sessions (update w.sessions b.session x) l (w.jobs l) := by
  refine leaves_sessions (fun i q hwithheld _ _ => update_of_ne ?_ ..) h
  rintro rfl
  cases hwithheld.idle.symm.trans (hw.batched.serves k b hjob).busy

theorem publish_secrets (hw : w.Sound) (h : w.Secrets) (mem : Shared) (hjob : w.jobs k = .batch b) :
    (w.publishBatch k b mem).Secrets := by
  have hold := h.backedAt hjob
  have hholds : b.created ⊆ (w.jobs k).holds := by
    rw [hjob]
    exact fun _ ht => ht
  unfold World.publishBatch
  dsimp only
  split
  · cases (w.sessions b.session).reclaimPending <;>
      exact Service.Secrets.quiet h (fun l _ => publish_leaves hw h hjob) trivial (List.nil_subset _) rfl
  refine Service.Secrets.quiet h (fun l _ => publish_leaves hw h hjob) (fun t ht => ⟨(hold t ht).1, ?_⟩) hholds rfl
  rw [(hw.batched.serves k b hjob).subject]
  exact (hold t ht).2

theorem reclaimRings_leaves (hw : w.Sound) (h : w.Secrets) (hgone : w.Gone A) :
    Leaves w.core w.core w.sessions (Service.reclaimRings w.sessions A).1 l (w.jobs l) := by
  refine leaves_sessions (fun i q hwithheld _ hserves => ?_) h
  rcases reclaimRings_cases w.sessions A i with hsame | ⟨hbelongs, -⟩
  · exact hsame
  · exact absurd (hwithheld.subject.symm.trans (belongs_iff.mp hbelongs).1) (hw.served hserves hgone)

theorem reclaimObjects_leaves (hw : w.Sound) (h : w.Secrets) {f : Family} (hgone : w.Gone A)
    (hexec : w.core.exec (.reclaim f A) = some (core, out)) : Leaves w.core core w.sessions w.sessions l (w.jobs l) := by
  refine leaves_exec hw.inv hexec (fun _ _ => by rw [exec_other_calls rfl hexec]) fun u hu => ?_
  rintro (hpresents | hrollback | ⟨f', hreclaim, -⟩)
  · cases hpresents
  · cases hrollback
  · cases hreclaim
    cases hjob : w.jobs l with
    | reply p r =>
      rw [hjob] at hu
      cases hundo : p.request.undo r with
      | nothing | session => simp [Job.secret, hundo] at hu
      | object t =>
        simp only [Job.secret, hundo, Option.some.injEq] at hu
        obtain ⟨-, -, -, -, hsubject⟩ := backed_object (h.backedAt hjob) hundo
        rw [hu] at hsubject
        exact hw.served (l := l) (by rw [hjob]; rfl) hgone hsubject.symm
    | _ =>
      rw [hjob] at hu
      cases hu

/-- **One section** keeps what nobody was told. -/
theorem Section.secrets (hstep : Section w w') (hw : w.Sound) (h : w.Secrets) : w'.Secrets := by
  have hjobs : ∀ {k : Fin n} {j : Job}, j.Backed w.core w.sessions k → j.holds ⊆ (w.jobs k).holds →
      j.secretSession = none → Service.Secrets w.core w.sessions (update w.jobs k j) :=
    fun hbacked hholds hsession => Service.Secrets.quiet h (fun _ _ => .refl) hbacked hholds hsession
  cases hstep with
  | connect | same => exact h
  | forget | delivered | reclaimed => exact hjobs trivial (List.nil_subset _) rfl
  | background ha hexec =>
    refine Service.Secrets.all h fun l => leaves_exec hw.inv hexec (fun _ _ => ?_) fun t _ => ofNobody_disposes ha
    rw [exec_other_calls (ofNobody_call ha) hexec]
  | answer _ hundo =>
    refine hjobs ?_ ?_ ?_
    · simp only [Job.Backed, hundo]
    · simp only [Job.holds, hundo, List.nil_subset]
    · simp only [Job.secretSession, hundo]
  | ask hfresh hbegins hexec => exact ask_secrets hw h hfresh hbegins hexec
  | spawn hfresh hbegins hexec =>
    refine Service.Secrets.quiet h (fun l hne => hbegins.minds.leaves hw.inv hexec hne) ?_ (List.nil_subset _) rfl
    cases hbegins with
    | op => exact (exec_op_returns hexec).elim
    | spawn =>
      obtain ⟨c, hc, hsubject, hid⟩ := exec_reserve_new hexec
      exact ⟨c, hc, hsubject, hid.trans (by rw [hfresh.next])⟩
  | createRing hfresh _ hregister hnew => exact createRing_secrets h hfresh.serials hregister hnew
  | goesOn ha hexec =>
    have hgoesOn := goesOn_secrets hw h ha hexec
    exact hgoesOn
  | spawned ha hjob hexec => exact spawned_secrets hw h ha hjob hexec
  | spawnDone ha hnext hexec => exact spawnDone_secrets hw h hnext.job ha hexec
  | withdraw hjob hundo =>
    exact Service.Secrets.quiet h (fun l hne => withdraw_leaves h hjob hundo hne) trivial (List.nil_subset _) rfl
  | @rollback k p r t core out hjob hundo hexec =>
    have ht : t ∈ (w.jobs k).holds := by
      rw [hjob, holds_object hundo]
      exact List.mem_singleton_self t
    exact Service.Secrets.quiet h (fun l hne => rollback_leaves hw h ht hexec hne) trivial (List.nil_subset _) rfl
  | found hfinds => exact hfinds.secrets h
  | @reserve k w₁ B i mem max submissions hidle hfinds hbusy hreserve htodo =>
    have hfound := hfinds.secrets h
    refine Service.Secrets.quiet hfound (fun l _ => leaves_sessions (fun i' q _ hl _ => ?_) hfound) nofun
      (List.nil_subset _) rfl
    refine update_of_ne ?_ ..
    rintro rfl
    cases (reserve_told hreserve).symm.trans (decide_eq_true ⟨l, hl⟩)
  | dismiss hnext =>
    exact complete_secrets h hnext.job (fun _ _ => .refl) (fun _ ht => ht) (fun _ _ ht => by cases ht)
  | execute hnext _ henters hexec => exact execute_secrets hw h hnext.job henters hexec
  | @beginSpawn k b sub rest a core hnext _ henters hexec =>
    have hold := h.backedAt hnext.job
    have hholds : b.created ⊆ (w.jobs k).holds := by
      rw [hnext.job]
      exact fun _ ht => ht
    refine Service.Secrets.quiet h (fun l hne => henters.minds.leaves hw.inv hexec hne)
      (fun t ht => ⟨exec_known hw.inv hexec (hold t ht).1, (hold t ht).2⟩) hholds rfl
  | publish mem hjob => exact publish_secrets hw h mem hjob
  | @unwind k B t tokens reclaim core out hjob hexec =>
    have hold := h.backedAt hjob
    have ht : t ∈ (w.jobs k).holds := by
      rw [hjob]
      exact List.mem_cons_self
    refine Service.Secrets.quiet h (fun l hne => rollback_leaves hw h ht hexec hne) (fun u hu => ?_) ?_ rfl
    · obtain ⟨hknown, hsubject⟩ := hold u (List.mem_cons_of_mem t hu)
      exact ⟨exec_known hw.inv hexec hknown, hsubject⟩
    · rw [hjob]
      exact fun u hu => List.mem_cons_of_mem t hu
  | @unwound k B reclaim hjob => cases reclaim <;> exact hjobs trivial (List.nil_subset _) rfl
  | @reclaimRings k B hjob =>
    have hgone : w.Gone B := hw.orderly.cleaner k B (by rw [hjob]; rfl)
    cases (Service.reclaimRings w.sessions B).2 <;>
      exact Service.Secrets.quiet h (fun l _ => reclaimRings_leaves hw h hgone) trivial (List.nil_subset _) rfl
  | @reclaimObjects k B f left core out hjob hexec =>
    have hgone : w.Gone B := hw.orderly.cleaner k B (by rw [hjob]; rfl)
    exact Service.Secrets.quiet h (fun l _ => reclaimObjects_leaves hw h hgone hexec) trivial (List.nil_subset _) rfl

/-! ## Runs -/

theorem Section.sound (h : Section w w') (hw : w.Sound) : w'.Sound := by
  refine ⟨?_, ?_, h.batched hw.batched, h.called hw.called, h.orderly hw.orderly⟩
  · rcases h.core with hsame | ⟨a, out, hexec⟩
    · rw [hsame]
      exact hw.inv
    · exact ⟨(exec_keeps hw.inv hexec).changes.ok hw.inv.registry, (exec_keeps hw.inv hexec).tasks⟩
  · rcases h.core with hsame | ⟨a, out, hexec⟩
    · rw [hsame]
      exact hw.named
    · exact exec_callsNamed hw.inv hexec hw.named

theorem init_sound (runtimeId : UInt64) (key : Key) : (World.init n runtimeId key).Sound :=
  ⟨init_inv runtimeId key, nofun, init_batched runtimeId key, ⟨nofun, fun _ => rfl⟩, init_orderly runtimeId key⟩

theorem init_secrets (runtimeId : UInt64) (key : Key) : (World.init n runtimeId key).Secrets :=
  ⟨fun _ => trivial, nofun, nofun⟩

end Sections

end Llam.Service

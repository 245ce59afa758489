import Llam.Basic

/-!
# Capability tokens

Tokens of `core/registry/capability.c`: a token names an object of the broker, the rights it gives and the subject it is
for, and carries a MAC under the broker's key. `validateSubject` accepts a token of the current epoch and of the expected
subject with the required rights if its MAC is right; `attenuate` issues a token with fewer rights for the same object.
-/

namespace Llam.Broker

/-! ## Rights -/

/-- A mask of `LLAM_CAP_RIGHT_*` bits. -/
structure Rights where
  mask : UInt64
  deriving DecidableEq

namespace Rights

def SEND : Rights := ⟨(1 : UInt64) <<< 0⟩
def RECV : Rights := ⟨(1 : UInt64) <<< 1⟩
def JOIN : Rights := ⟨(1 : UInt64) <<< 2⟩
def DETACH : Rights := ⟨(1 : UInt64) <<< 3⟩
def CLOSE : Rights := ⟨(1 : UInt64) <<< 4⟩
def DESTROY : Rights := ⟨(1 : UInt64) <<< 5⟩
def READ : Rights := ⟨(1 : UInt64) <<< 6⟩
def WRITE : Rights := ⟨(1 : UInt64) <<< 7⟩

instance : OrOp Rights := ⟨fun a b => ⟨a.mask ||| b.mask⟩⟩

/-- `a ≤ b` is the test `(b & a) == a`. -/
instance : PartialOrder Rights where
  le a b := b.mask &&& a.mask = a.mask
  le_refl a := UInt64.and_self
  le_trans a b c hab hbc := by
    rw [← hab, ← UInt64.and_assoc, hbc]
  le_antisymm a b hab hba := by
    cases a
    cases b
    exact congrArg Rights.mk (hab.symm.trans ((UInt64.and_comm _ _).trans hba))

instance : OrderBot Rights where
  bot := ⟨0⟩
  bot_le _ := UInt64.and_zero

instance (a b : Rights) : Decidable (a ≤ b) := inferInstanceAs (Decidable (b.mask &&& a.mask = a.mask))

theorem ne_bot_of_le {a b : Rights} (h : a ≤ b) (ha : a ≠ ⊥) : b ≠ ⊥ := by
  rintro rfl
  exact ha (le_antisymm h bot_le)

end Rights

/-! ## Tokens -/

/-- `llam_capability_key_t` -/
structure Key where
  word0 : UInt64
  word1 : UInt64
  word2 : UInt64
  word3 : UInt64
  deriving DecidableEq

/-- `llam_cap_key_valid` -/
def Key.valid (key : Key) : Bool := (key.word0 ||| key.word1 ||| key.word2 ||| key.word3) != 0

/-- `llam_capability_object_t` -/
structure ObjectName where
  runtimeId : UInt64
  family : UInt32
  slot : UInt64
  generation : UInt64
  revocationEpoch : UInt64
  subjectId : UInt64
  deriving DecidableEq

/-- `llam_capability_token_t`: the nonce and the MAC are two little-endian words each. -/
structure Token where
  version : UInt32
  family : UInt32
  runtimeId : UInt64
  slot : UInt64
  generation : UInt64
  rights : Rights
  revocationEpoch : UInt64
  subjectId : UInt64
  nonce : UInt64 × UInt64
  mac : UInt64 × UInt64
  deriving DecidableEq

/-- `LLAM_CAPABILITY_VERSION` -/
def capabilityVersion : UInt32 := 1

/-! ## The MAC -/

/-- `llam_cap_siphash_state_t` -/
structure Sip where
  v0 : UInt64
  v1 : UInt64
  v2 : UInt64
  v3 : UInt64
  deriving DecidableEq

namespace Sip

def rotl64 (value bits : UInt64) : UInt64 := (value <<< bits) ||| (value >>> (64 - bits))

/-- `llam_cap_siphash_init` -/
def init (k0 k1 : UInt64) : Sip :=
  ⟨0x736f6d6570736575 ^^^ k0, 0x646f72616e646f6d ^^^ k1, 0x6c7967656e657261 ^^^ k0, 0x7465646279746573 ^^^ k1⟩

/-- `llam_cap_sipround` -/
def round (s : Sip) : Sip :=
  let v0 := s.v0 + s.v1
  let v1 := rotl64 s.v1 13 ^^^ v0
  let v0 := rotl64 v0 32
  let v2 := s.v2 + s.v3
  let v3 := rotl64 s.v3 16 ^^^ v2
  let v0 := v0 + v3
  let v3 := rotl64 v3 21 ^^^ v0
  let v2 := v2 + v1
  let v1 := rotl64 v1 17 ^^^ v2
  let v2 := rotl64 v2 32
  ⟨v0, v1, v2, v3⟩

/-- `llam_cap_siphash_compress` -/
def compress (s : Sip) (word : UInt64) : Sip :=
  let s := round (round { s with v3 := s.v3 ^^^ word })
  { s with v0 := s.v0 ^^^ word }

/-- `llam_cap_siphash_finish` for nine words -/
def finish (s : Sip) : UInt64 :=
  let s := compress s ((72 : UInt64) <<< 56)
  let s := round (round (round (round { s with v2 := s.v2 ^^^ 0xff })))
  s.v0 ^^^ s.v1 ^^^ s.v2 ^^^ s.v3

end Sip

/-- The nine words that the MAC covers: everything in a token but the MAC. -/
def Token.words (t : Token) : List UInt64 :=
  [(t.family.toUInt64 <<< 32) ||| t.version.toUInt64, t.runtimeId, t.slot, t.generation, t.rights.mask, t.revocationEpoch,
    t.subjectId, t.nonce.1, t.nonce.2]

/-- `llam_cap_mac` -/
def capMac (key : Key) (t : Token) : UInt64 × UInt64 :=
  ((t.words.foldl Sip.compress (Sip.init key.word0 key.word1)).finish,
    (t.words.foldl Sip.compress (Sip.init key.word2 key.word3)).finish)

/-! ## Issue, validate, attenuate -/

/-- `llam_capability_issue`. The nonce is what the entropy source gives, or nothing. -/
def capabilityIssue (key : Key) (object : ObjectName) (rights : Rights) (entropy : Option (UInt64 × UInt64)) :
    Except Errno Token :=
  if !key.valid || object.runtimeId == 0 || object.family == 0 || object.slot == 0 || object.slot == wordMax ||
      object.generation == 0 || object.revocationEpoch == 0 || rights == ⊥ then .error .EINVAL
  else
    match entropy with
    | none => .error Errno.EIO
    | some nonce =>
      let token : Token := ⟨capabilityVersion, object.family, object.runtimeId, object.slot, object.generation, rights,
        object.revocationEpoch, object.subjectId, nonce, (0, 0)⟩
      .ok { token with mac := capMac key token }

/-- `llam_capability_validate_subject` -/
def validateSubject (key : Key) (token : Token) (required : Rights) (currentEpoch expectedSubject : UInt64) :
    Except Errno Unit :=
  if !key.valid || required == ⊥ then .error .EINVAL
  else if token.version != capabilityVersion || token.family == 0 || token.runtimeId == 0 || token.slot == 0 ||
      token.slot == wordMax || token.generation == 0 || token.revocationEpoch == 0 || token.rights == ⊥ then
    .error .EINVAL
  else if token.revocationEpoch ≠ currentEpoch ∨ ¬ required ≤ token.rights then .error .EACCES
  else if token.subjectId ≠ expectedSubject then .error .EACCES
  else if capMac key token ≠ token.mac then .error .EACCES
  else .ok ()

/-- `llam_capability_attenuate` -/
def capabilityAttenuate (key : Key) (token : Token) (subset : Rights) (currentEpoch : UInt64)
    (entropy : Option (UInt64 × UInt64)) : Except Errno Token :=
  if subset = ⊥ then .error .EINVAL
  else
    match validateSubject key token subset currentEpoch token.subjectId with
    | .error e => .error e
    | .ok () =>
      if ¬ subset ≤ token.rights then .error .EACCES
      else
        capabilityIssue key ⟨token.runtimeId, token.family, token.slot, token.generation, token.revocationEpoch,
          token.subjectId⟩ subset entropy

/-! ## What they say -/

theorem capabilityIssue_ok {key : Key} {object : ObjectName} {rights : Rights} {entropy : Option (UInt64 × UInt64)}
    {t : Token} (h : capabilityIssue key object rights entropy = .ok t) :
    t.family = object.family ∧ t.runtimeId = object.runtimeId ∧ t.slot = object.slot ∧ t.generation = object.generation ∧
      t.rights = rights ∧ t.revocationEpoch = object.revocationEpoch ∧ t.subjectId = object.subjectId ∧
      t.mac = capMac key t := by
  unfold capabilityIssue at h
  split at h
  · cases h
  split at h
  · cases h
  · cases h
    exact ⟨rfl, rfl, rfl, rfl, rfl, rfl, rfl, rfl⟩

theorem validateSubject_ok {key : Key} {t : Token} {required : Rights} {epoch subject : UInt64}
    (h : validateSubject key t required epoch subject = .ok ()) :
    required ≠ ⊥ ∧ t.revocationEpoch ≠ 0 ∧ t.revocationEpoch = epoch ∧ required ≤ t.rights ∧ t.subjectId = subject ∧
      t.mac = capMac key t := by
  unfold validateSubject at h
  split at h
  · cases h
  rename_i hinput
  split at h
  · cases h
  rename_i hfields
  split at h
  · cases h
  rename_i hright
  split at h
  · cases h
  rename_i hsubject
  split at h
  · cases h
  rename_i hmac
  simp only [Bool.or_eq_true, not_or, beq_iff_eq] at hinput hfields
  rw [not_or, not_not, not_not] at hright
  rw [not_not] at hsubject hmac
  exact ⟨hinput.2, hfields.1.2, hright.1, hright.2, hsubject, hmac.symm⟩

theorem capabilityAttenuate_ok {key : Key} {t t' : Token} {subset : Rights} {epoch : UInt64}
    {entropy : Option (UInt64 × UInt64)} (h : capabilityAttenuate key t subset epoch entropy = .ok t') :
    subset ≤ t.rights ∧ t.revocationEpoch = epoch ∧ t'.family = t.family ∧ t'.runtimeId = t.runtimeId ∧ t'.slot = t.slot ∧
      t'.generation = t.generation ∧ t'.rights = subset ∧ t'.revocationEpoch = t.revocationEpoch ∧
      t'.subjectId = t.subjectId ∧ t'.mac = capMac key t' := by
  unfold capabilityAttenuate at h
  split at h
  · cases h
  split at h
  · cases h
  rename_i hvalid
  split at h
  · cases h
  rename_i hle
  obtain ⟨-, -, hepoch, -⟩ := validateSubject_ok hvalid
  exact ⟨not_not.mp hle, hepoch, capabilityIssue_ok h⟩

end Llam.Broker

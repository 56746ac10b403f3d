/-
KvCrucible/Sealing.lean

Which inputs are sealed, and into what.

Past the structural validator an input can only fail for its authority or for
the hashing of its mutations.  Both are said here about the inputs alone
(`Sealable`): every stream comes with an authority its baseline allows, every
envelope is hashed within one line, and the hashed bytes of the whole trace are
within their budget.  Along a run the assembler holds a normalizer that has
hashed what its records add up to (`Hashed`), so that the next input is
accepted exactly when the inputs up to it are sealable.
-/
import KvCrucible.Identity
import KvCrucible.SessionBudgets
import KvCrucible.Snapshot
import KvCrucible.TraceVerdict

namespace KvCrucible

open Basis Std

variable {canon : Canonical}

/-! ### Sealable inputs -/

/-- An input brings the authority its record needs. -/
def Authorized : Entry → Prop
  | (.stream stream, some authority) => EnvelopeNormalizer.AuthorityOk stream authority
  | (.stream _, none) => False
  | (_, authority) => authority = none

/-- The mutations of a record are hashed within one line. -/
def Record.Hashable (canon : Canonical) (limits : Limits) : Record → Prop
  | .envelope e => canon.accepts e.mutations = true ∧
      (canon.text e.mutations).length ≤ limits.maxLineBytes.toNat
  | _ => True

/-- The hashed bytes of a record. -/
def Record.hashedBytes (canon : Canonical) : Record → Nat
  | .envelope e => (canon.text e.mutations).length
  | _ => 0

/-- The hashed bytes of a trace. -/
def hashedBytesOf (canon : Canonical) (records : List Record) : Nat :=
  (records.map (Record.hashedBytes canon)).sum

/-- Inputs that an assembler accepts. -/
structure Sealable (canon : Canonical) (limits : Limits)
    (inputs : List (ValidatedRecord × Option BaselineAuthority)) : Prop where
  wellFormed : WellFormed limits (TraceAssembler.recordsOf inputs)
  authorized : ∀ entry ∈ entriesOf inputs, Authorized entry
  hashable : ∀ record ∈ TraceAssembler.recordsOf inputs, record.Hashable canon limits
  hashedBytes : hashedBytesOf canon (TraceAssembler.recordsOf inputs) ≤
    limits.maxFingerprintBytesPerTrace.toNat

/-- What one more record asks for. -/
structure Welcome (canon : Canonical) (limits : Limits) (records : List Record) (entry : Entry) :
    Prop where
  wellFormed : WellFormed limits (records ++ [entry.1])
  authorized : Authorized entry
  hashable : entry.1.Hashable canon limits
  hashedBytes : hashedBytesOf canon records + entry.1.hashedBytes canon ≤
    limits.maxFingerprintBytesPerTrace.toNat

section Snoc

variable {limits : Limits} {inputs : List (ValidatedRecord × Option BaselineAuthority)}
  {input : ValidatedRecord × Option BaselineAuthority} {records : List Record} {record : Record}

theorem recordsOf_snoc : TraceAssembler.recordsOf (inputs ++ [input]) =
    TraceAssembler.recordsOf inputs ++ [input.1.asRecord] := List.map_append

theorem entriesOf_snoc : entriesOf (inputs ++ [input]) =
    entriesOf inputs ++ [(input.1.asRecord, input.2)] := List.map_append

theorem hashedBytesOf_snoc : hashedBytesOf canon (records ++ [record]) =
    hashedBytesOf canon records + record.hashedBytes canon := by
  simp [hashedBytesOf]

theorem sealable_nil : Sealable canon limits [] where
  wellFormed := wellFormed_nil limits
  authorized := List.forall_mem_nil _
  hashable := List.forall_mem_nil _
  hashedBytes := Nat.zero_le _

/-- Sealable inputs grow by welcome ones. -/
theorem sealable_snoc : Sealable canon limits (inputs ++ [input]) ↔ Sealable canon limits inputs ∧
    Welcome canon limits (TraceAssembler.recordsOf inputs) (input.1.asRecord, input.2) := by
  have hrecords := @recordsOf_snoc inputs input
  have hentries := @entriesOf_snoc inputs input
  constructor
  · rintro ⟨hwell, hauthorized, hhashable, hbytes⟩
    rw [hrecords] at hwell hhashable hbytes
    rw [hentries, List.forall_mem_append, List.forall_mem_singleton] at hauthorized
    rw [List.forall_mem_append, List.forall_mem_singleton] at hhashable
    rw [hashedBytesOf_snoc] at hbytes
    exact ⟨⟨hwell.of_append, hauthorized.1, hhashable.1, le_of_add_le_left hbytes⟩,
      hwell, hauthorized.2, hhashable.2, hbytes⟩
  · rintro ⟨hbefore, hinput⟩
    constructor
    · rw [hrecords]
      exact hinput.wellFormed
    · rw [hentries, List.forall_mem_append, List.forall_mem_singleton]
      exact ⟨hbefore.authorized, hinput.authorized⟩
    · rw [hrecords, List.forall_mem_append, List.forall_mem_singleton]
      exact ⟨hbefore.hashable, hinput.hashable⟩
    · rw [hrecords, hashedBytesOf_snoc]
      exact hinput.hashedBytes

end Snoc

/-! ### Hashing -/

/-- A list is fingerprinted when it is accepted and its text fits. -/
theorem Canonical.value_exists {mutations : List Mutation} {maximum : Nat}
    (hmaximum : maximum < 2 ^ 64) : (∃ computed, canon.value mutations maximum = .ok computed) ↔
      canon.accepts mutations = true ∧ (canon.text mutations).length ≤ maximum := by
  by_cases haccepts : canon.accepts mutations = true
  · constructor
    · rintro ⟨computed, hcomputed⟩
      exact ⟨haccepts, ((Canonical.value_iff hmaximum haccepts).mp hcomputed).1⟩
    · rintro ⟨-, hfits⟩
      exact ⟨_, (Canonical.value_iff hmaximum haccepts).mpr ⟨hfits, rfl⟩⟩
  · apply iff_of_false
    · rintro ⟨computed, hcomputed⟩
      rw [Bool.not_eq_true] at haccepts
      unfold Canonical.value at hcomputed
      dsimp only at hcomputed
      split at hcomputed
      · cases hcomputed
      · rw [haccepts, Bool.and_false, if_neg Bool.false_ne_true] at hcomputed
        cases hcomputed
    · exact fun h => haccepts h.1

namespace EnvelopeNormalizer

variable {session : SessionId} {limits : Limits} {records : List Record}
  {n n' : EnvelopeNormalizer} {record : ValidatedRecord} {envelope : EventEnvelope}

/-- An envelope is fingerprinted when its text fits in its line and in what is
left of the trace. -/
theorem computeFingerprint_exists
    (hbytes : n.fingerprintBytes ≤ n.limits.maxFingerprintBytesPerTrace.toNat) :
    (∃ computed, n.computeFingerprint canon envelope = .ok computed) ↔
      (Record.envelope envelope).Hashable canon n.limits ∧
        n.fingerprintBytes + (canon.text envelope.mutations).length ≤
          n.limits.maxFingerprintBytesPerTrace.toNat := by
  have hlt := n.limits.maxLineBytes.toNat_lt
  have hremaining : subOrOverflow n.limits.maxFingerprintBytesPerTrace.toNat n.fingerprintBytes =
      .ok (n.limits.maxFingerprintBytesPerTrace.toNat - n.fingerprintBytes) :=
    subOrOverflow_eq_ok.mpr ⟨hbytes, rfl⟩
  have hcompute : (∃ computed, n.computeFingerprint canon envelope = .ok computed) ↔
      ∃ computed, canon.value envelope.mutations (min n.limits.maxLineBytes.toNat
        (n.limits.maxFingerprintBytesPerTrace.toNat - n.fingerprintBytes)) = .ok computed := by
    unfold computeFingerprint Canonical.envelope
    rw [hremaining]
    dsimp only [Bind.bind, Except.bind]
    cases canon.value envelope.mutations (min n.limits.maxLineBytes.toNat
      (n.limits.maxFingerprintBytesPerTrace.toNat - n.fingerprintBytes)) with
    | ok computed => exact iff_of_true ⟨computed, rfl⟩ ⟨computed, rfl⟩
    | error error => exact iff_of_false (fun ⟨_, h⟩ => by cases h) fun ⟨_, h⟩ => by cases h
  rw [hcompute, Canonical.value_exists (by omega)]
  constructor
  · rintro ⟨haccepts, hfits⟩
    exact ⟨⟨haccepts, by omega⟩, by omega⟩
  · rintro ⟨⟨haccepts, hfits⟩, htotal⟩
    exact ⟨haccepts, by omega⟩

/-- An envelope that is new and within the totals is prepared when it can be
fingerprinted. -/
theorem prepareEnvelope_exists (hid : envelope.envelopeId ∉ n.envelopeIds)
    (hcount : n.envelopes + 1 ≤ n.limits.maxEnvelopesPerTrace.toNat)
    (hidentities : n.identityBytes + len envelope.envelopeId ≤
      n.limits.maxIdentityBytesPerTrace.toNat)
    (hbytes : n.fingerprintBytes ≤ n.limits.maxFingerprintBytesPerTrace.toNat) :
    (∃ result, n.prepareEnvelope canon envelope = .ok result) ↔
      (Record.envelope envelope).Hashable canon n.limits ∧
        n.fingerprintBytes + (canon.text envelope.mutations).length ≤
          n.limits.maxFingerprintBytesPerTrace.toNat := by
  have hcountMax := n.limits.maxEnvelopesPerTrace.toNat_lt
  have hidentitiesMax := n.limits.maxIdentityBytesPerTrace.toNat_lt
  have hbytesMax := n.limits.maxFingerprintBytesPerTrace.toNat_lt
  rw [← computeFingerprint_exists hbytes]
  constructor
  · rintro ⟨result, h⟩
    obtain ⟨_, -, h⟩ := bind_eq_ok.mp h
    obtain ⟨_, -, h⟩ := bind_eq_ok.mp h
    obtain ⟨_, -, h⟩ := bind_eq_ok.mp h
    obtain ⟨_, -, h⟩ := bind_eq_ok.mp h
    obtain ⟨_, -, h⟩ := bind_eq_ok.mp h
    obtain ⟨_, -, h⟩ := bind_eq_ok.mp h
    split at h
    next => cases h
    next computed hcomputed => exact ⟨computed, hcomputed⟩
  · intro hcompute
    obtain ⟨-, htotal⟩ := (computeFingerprint_exists hbytes).mp hcompute
    apply bind_exists (rejectIf_neg hid)
    apply bind_exists (addOrOverflow_eq_ok.mpr ⟨rfl, by omega⟩)
    apply bind_exists (rejectIf_neg (Nat.not_lt.mpr hcount))
    apply bind_exists (usizeToU64_eq_ok.mpr ⟨rfl, by omega⟩)
    apply bind_exists (addOrOverflow_eq_ok.mpr ⟨rfl, by omega⟩)
    apply bind_exists (rejectIf_neg (Nat.not_lt.mpr hidentities))
    split
    next error herror =>
      obtain ⟨computed, hcomputed⟩ := hcompute
      cases herror.symm.trans hcomputed
    next computed hcomputed =>
      have hlength := (n.computeFingerprint_ok hcomputed).2
      apply bind_exists (addOrOverflow_eq_ok.mpr ⟨rfl, by omega⟩)
      apply bind_exists (rejectIf_neg (Nat.not_lt.mpr (by omega)))
      exact ⟨_, rfl⟩

/-- A normalizer that has hashed what its records add up to. -/
structure Hashed (canon : Canonical) (session : SessionId) (limits : Limits)
    (records : List Record) (n : EnvelopeNormalizer) : Prop extends
    Coupled session limits records n where
  hashed : n.fingerprintBytes = hashedBytesOf canon records
  hashed_le : n.fingerprintBytes ≤ limits.maxFingerprintBytesPerTrace.toNat

/-- The calls for an envelope that keeps the trace well-formed. -/
theorem Hashed.prepare_exists (h : Hashed canon session limits records n)
    (hrecord : record.asRecord = .envelope envelope)
    (hwell : WellFormed limits (records ++ [.envelope envelope])) :
    (∃ source n', n.prepare canon record = (.ok source, n')) ↔
      (Record.envelope envelope).Hashable canon limits ∧
        hashedBytesOf canon records + (canon.text envelope.mutations).length ≤
          limits.maxFingerprintBytesPerTrace.toNat := by
  obtain ⟨-, hvalid, -, -, hid, hcount, hbytes⟩ := wellFormed_snoc.mp hwell
  have hvalid : record.asRecord.validate n.limits = .ok () := by
    rw [h.limits_eq, hrecord]
    exact hvalid
  have hprepare : (∃ source n', n.prepare canon record = (.ok source, n')) ↔
      ∃ result, n.prepareEnvelope canon envelope = .ok result := by
    have hinner : n.prepareInner canon record = n.prepareEnvelope canon envelope := by
      unfold prepareInner
      rw [hvalid, hrecord]
    unfold EnvelopeNormalizer.prepare
    rw [if_neg (not_not_intro h.status), hinner]
    cases n.prepareEnvelope canon envelope with
    | ok result => exact iff_of_true ⟨_, _, rfl⟩ ⟨_, rfl⟩
    | error error => exact iff_of_false (fun ⟨_, _, h⟩ => by cases h) fun ⟨_, h⟩ => by cases h
  have hfresh : envelope.envelopeId ∉ n.envelopeIds := by
    rw [h.envelopeIds, List.mem_toFinset]
    exact hid
  have hroom : n.envelopes + 1 ≤ n.limits.maxEnvelopesPerTrace.toNat := by
    rw [h.envelopes, h.limits_eq]
    exact hcount
  have hidentities : n.identityBytes + len envelope.envelopeId ≤
      n.limits.maxIdentityBytesPerTrace.toNat := by
    have hcharged := h.identityBytes
    rw [h.limits_eq]
    omega
  rw [hprepare, prepareEnvelope_exists hfresh hroom hidentities (h.limits_eq ▸ h.hashed_le),
    h.limits_eq, h.hashed]

/-- The calls for a stream that keeps the trace well-formed. -/
theorem Hashed.registerStream_exists (h : Hashed canon session limits records n)
    {stream : StreamDeclaration} (hrecord : record.asRecord = .stream stream)
    (hwell : WellFormed limits (records ++ [.stream stream])) (authority : BaselineAuthority) :
    (∃ blueprint n', n.registerStream record authority = (.ok blueprint, n')) ↔
      AuthorityOk stream authority := by
  have hdepth : n.limits.maxDepth.toNat ≤ maxJsonDepth := by
    rw [h.limits_eq]
    exact h.depth
  constructor
  · rintro ⟨blueprint, n', hregister⟩
    rcases registerStream_cases h.status hdepth record authority with ⟨error, heq⟩ | heq |
      ⟨stream', hauthority, registered, n'', hrecord', -, -⟩
    · cases heq.symm.trans hregister
    · cases heq.symm.trans hregister
    · obtain rfl := Record.stream.inj (hrecord.symm.trans hrecord')
      exact hauthority
  · intro hauthority
    rcases h.registerStream hrecord hwell authority with ⟨blueprint, n', hregister, -⟩ | hmismatch
    · exact ⟨blueprint, n', hregister⟩
    · -- a stream that cannot be bound closes the session
      exfalso
      have hpass : validateDepth n.limits = .ok () := rejectIf_neg (Nat.not_lt.mpr hdepth)
      obtain ⟨-, hvalid, -⟩ := wellFormed_snoc.mp hwell
      rw [← h.limits_eq, ← hrecord] at hvalid
      unfold EnvelopeNormalizer.registerStream at hmismatch
      rw [if_neg (not_not_intro h.status), hpass] at hmismatch
      dsimp only at hmismatch
      rw [hvalid, hrecord] at hmismatch
      dsimp only at hmismatch
      unfold registerDeclaration at hmismatch
      rw [dif_pos hauthority] at hmismatch
      unfold bindStream at hmismatch
      cases hinner : n.bindStreamInner (registrationOf stream authority hauthority) with
      | ok result =>
          rw [hinner] at hmismatch
          cases hmismatch
      | error error =>
          rw [hinner] at hmismatch
          have hstatus : SessionStatus.failed = n.status :=
            congrArg EnvelopeNormalizer.status (Prod.mk.inj hmismatch).2
          cases hstatus.trans h.status

/-- A registered stream is not hashed. -/
theorem registerStream_hashes {authority : BaselineAuthority} {blueprint : StreamBlueprint}
    (hopen : n.status = .open_) (hdepth : n.limits.maxDepth.toNat ≤ maxJsonDepth)
    (h : n.registerStream record authority = (.ok blueprint, n')) :
    n'.fingerprintBytes = n.fingerprintBytes := by
  rcases registerStream_cases hopen hdepth record authority with ⟨error, heq⟩ | heq |
    ⟨stream, hauthority, registered, n'', hrecord, hinner, heq⟩
  · cases heq.symm.trans h
  · cases heq.symm.trans h
  · obtain ⟨-, rfl⟩ := Prod.mk.inj (heq.symm.trans h)
    obtain ⟨-, ⟨-, rfl⟩ | ⟨-, -, -, -, rfl⟩⟩ := bindStreamInner_charges hinner
    · rfl
    · rfl

/-- A prepared envelope is hashed once. -/
theorem prepare_hashes {source : PreparedEnvelope canon}
    (h : n.prepare canon record = (.ok source, n')) :
    n'.fingerprintBytes = n.fingerprintBytes + record.asRecord.hashedBytes canon := by
  unfold EnvelopeNormalizer.prepare at h
  split at h
  next => cases h
  next =>
    cases hinner : n.prepareInner canon record with
    | error error =>
        rw [hinner] at h
        cases h
    | ok result =>
        obtain ⟨source', after⟩ := result
        rw [hinner] at h
        obtain ⟨hsource, rfl⟩ := Prod.mk.inj h
        obtain rfl := Except.ok.inj hsource
        unfold prepareInner at hinner
        split at hinner
        next => cases hinner
        next =>
          split at hinner
          next envelope hrecord =>
            obtain ⟨hcharge, -, -, -, -, hafter⟩ := prepareEnvelope_charges hinner
            have hbytes : source'.canonicalBytes = (canon.text envelope.mutations).length :=
              congrArg Prod.snd hcharge
            rw [hafter, hrecord]
            exact congrArg (n.fingerprintBytes + ·) hbytes
          next => cases hinner

end EnvelopeNormalizer

/-! ### The assembler -/

namespace TraceAssembler

open EnvelopeNormalizer

/-- An assembler that has accepted `inputs`. -/
structure Accepted (canon : Canonical) (session : SessionId) (limits : Limits)
    (inputs : List (ValidatedRecord × Option BaselineAuthority)) (a : TraceAssembler canon) :
    Prop extends Agrees session limits (recordsOf inputs) a where
  live : a.failed = false
  hashed : a.normalizer.Hashed canon session limits (recordsOf inputs)
  sealable : Sealable canon limits inputs

variable {session : SessionId} {limits : Limits}
  {inputs : List (ValidatedRecord × Option BaselineAuthority)}
  {input : ValidatedRecord × Option BaselineAuthority} {a a' : TraceAssembler canon}

theorem new_accepted (h : new session limits = .ok a) :
    Accepted canon session limits [] a := by
  obtain ⟨validator, hvalidator, hrest⟩ := bind_eq_ok.mp h
  obtain ⟨normalizer, hnormalizer, hrest⟩ := bind_eq_ok.mp hrest
  obtain rfl := pure_eq_ok.mp hrest
  rw [mapError_eq_ok] at hnormalizer
  obtain ⟨_, hdepth, hnormalizer⟩ := bind_eq_ok.mp hnormalizer
  obtain rfl := pure_eq_ok.mp hnormalizer
  obtain ⟨start, hstart, hlive, hagrees⟩ := @new_agrees canon session limits
    (Nat.le_of_not_lt (rejectIf_eq_ok.mp hdepth))
  obtain rfl := Except.ok.inj (h.symm.trans hstart)
  exact ⟨hagrees, hlive, ⟨hagrees.normalizer, rfl, Nat.zero_le _⟩, sealable_nil⟩

/-- The structural validator of an assembler takes what keeps the trace
well-formed. -/
theorem pushValidator_exists (h : Assembled limits (recordsOf inputs) a)
    (hwell : WellFormed limits (recordsOf inputs ++ [input.1.asRecord])) :
    a.pushValidator input.1 = .ok { a with
      validator := TraceValidator.after limits (recordsOf inputs ++ [input.1.asRecord]) } := by
  unfold pushValidator
  rw [h.validator]
  rcases TraceValidator.push_after h.wellFormed input.1 with ⟨-, hpush⟩ | ⟨hill, -⟩
  · rw [hpush]
  · exact absurd hwell hill

/-- The next input is accepted when it is welcome. -/
theorem Accepted.push_exists (h : Accepted canon session limits inputs a) :
    (∃ a', a.pushInner input.1 input.2 = .ok a') ↔
      Welcome canon limits (recordsOf inputs) (input.1.asRecord, input.2) := by
  have hbytes : hashedBytesOf canon (recordsOf inputs) ≤
      limits.maxFingerprintBytesPerTrace.toNat := h.sealable.hashedBytes
  constructor
  · rintro ⟨a', hpush⟩
    obtain ⟨authority, hauthority, hpush⟩ := bind_eq_ok.mp hpush
    obtain ⟨a₁, hvalidator, hpush⟩ := bind_eq_ok.mp hpush
    obtain ⟨hwell, rfl⟩ := h.toAssembled.pushValidator hvalidator
    cases hrecord : input.1.asRecord with
    | traceHeader header =>
        rw [hrecord] at hauthority hwell
        cases hinput : input.2 with
        | none => exact ⟨hwell, rfl, trivial, hbytes⟩
        | some value =>
            rw [hinput] at hauthority
            cases hauthority
    | faultSchedule schedule =>
        rw [hrecord] at hauthority hwell
        cases hinput : input.2 with
        | none => exact ⟨hwell, rfl, trivial, hbytes⟩
        | some value =>
            rw [hinput] at hauthority
            cases hauthority
    | stream stream =>
        rw [hrecord] at hauthority hwell hpush
        cases hinput : input.2 with
        | none =>
            rw [hinput] at hauthority
            cases hauthority
        | some value =>
            rw [hinput] at hauthority
            obtain rfl := Except.ok.inj hauthority
            refine ⟨hwell, ?_, trivial, hbytes⟩
            apply (h.hashed.registerStream_exists hrecord hwell value).mp
            change pushStream _ _ _ = .ok a' at hpush
            unfold pushStream at hpush
            split at hpush
            next blueprint n hregister => exact ⟨blueprint, n, hregister⟩
            next => cases hpush
    | envelope e =>
        rw [hrecord] at hauthority hwell hpush
        cases hinput : input.2 with
        | some value =>
            rw [hinput] at hauthority
            cases hauthority
        | none =>
            have hprepare : ∃ source n, a.normalizer.prepare canon input.1 = (.ok source, n) := by
              change pushEnvelope _ _ = .ok a' at hpush
              unfold pushEnvelope at hpush
              split at hpush
              next source n hprepare => exact ⟨source, n, hprepare⟩
              next => cases hpush
            obtain ⟨hhashable, htotal⟩ := (h.hashed.prepare_exists hrecord hwell).mp hprepare
            exact ⟨hwell, rfl, hhashable, htotal⟩
  · rintro ⟨hwell, hauthorized, hhashable, htotal⟩
    have hvalidator := pushValidator_exists h.toAssembled hwell
    unfold pushInner
    cases hrecord : input.1.asRecord with
    | traceHeader header =>
        rw [hrecord] at hauthorized
        have hinput : input.2 = none := hauthorized
        rw [hinput]
        exact bind_exists rfl (bind_exists hvalidator ⟨_, rfl⟩)
    | faultSchedule schedule =>
        rw [hrecord] at hauthorized
        have hinput : input.2 = none := hauthorized
        rw [hinput]
        exact bind_exists rfl (bind_exists hvalidator ⟨_, rfl⟩)
    | stream stream =>
        rw [hrecord] at hauthorized hwell
        cases hinput : input.2 with
        | none =>
            rw [hinput] at hauthorized
            exact hauthorized.elim
        | some value =>
            rw [hinput] at hauthorized
            obtain ⟨blueprint, n, hregister⟩ :=
              (h.hashed.registerStream_exists hrecord hwell value).mpr hauthorized
            apply bind_exists rfl
            apply bind_exists hvalidator
            exact ⟨_, pushStream_ok hregister⟩
    | envelope e =>
        rw [hrecord] at hauthorized hwell hhashable htotal
        have hinput : input.2 = none := hauthorized
        rw [hinput]
        obtain ⟨source, n, hprepare⟩ :=
          (h.hashed.prepare_exists hrecord hwell).mpr ⟨hhashable, htotal⟩
        apply bind_exists rfl
        apply bind_exists hvalidator
        exact ⟨_, pushEnvelope_ok hprepare⟩

/-- A push hashes the mutations of its record. -/
theorem pushInner_hashes {record : ValidatedRecord} {authority : Option BaselineAuthority}
    (hopen : a.normalizer.status = .open_)
    (hdepth : a.normalizer.limits.maxDepth.toNat ≤ maxJsonDepth)
    (hpush : a.pushInner record authority = .ok a') :
    a'.normalizer.fingerprintBytes =
      a.normalizer.fingerprintBytes + record.asRecord.hashedBytes canon := by
  obtain ⟨authority', hauthority, hpush⟩ := bind_eq_ok.mp hpush
  obtain ⟨a₁, hvalidator, hpush⟩ := bind_eq_ok.mp hpush
  have hnormalizer : a₁.normalizer = a.normalizer := by
    unfold pushValidator at hvalidator
    split at hvalidator
    next => rw [← Except.ok.inj hvalidator]
    next => cases hvalidator
  rw [← hnormalizer] at hopen hdepth ⊢
  cases hrecord : record.asRecord with
  | traceHeader header =>
      rw [hrecord] at hpush
      obtain rfl : a₁ = a' := Except.ok.inj hpush
      rfl
  | faultSchedule schedule =>
      rw [hrecord] at hpush
      obtain rfl : a₁ = a' := Except.ok.inj hpush
      rfl
  | stream stream =>
      rw [hrecord] at hpush hauthority
      cases authority with
      | none => cases hauthority
      | some value =>
          obtain rfl := Except.ok.inj hauthority
          change a₁.pushStream record value = .ok a' at hpush
          unfold pushStream at hpush
          split at hpush
          next blueprint n hregister =>
            obtain rfl := Except.ok.inj hpush
            exact registerStream_hashes hopen hdepth hregister
          next => cases hpush
  | envelope e =>
      rw [hrecord] at hpush
      change a₁.pushEnvelope record = .ok a' at hpush
      unfold pushEnvelope at hpush
      split at hpush
      next source n hprepare =>
        obtain rfl := Except.ok.inj hpush
        rw [← hrecord]
        exact prepare_hashes hprepare
      next => cases hpush

/-- An accepted input is added to those before it. -/
theorem Accepted.push (h : Accepted canon session limits inputs a)
    (hpush : a.pushInner input.1 input.2 = .ok a') :
    Accepted canon session limits (inputs ++ [input]) a' := by
  have hwelcome := h.push_exists.mp ⟨a', hpush⟩
  obtain ⟨hagrees, hlive⟩ := h.toAgrees.push h.live hpush
  rw [← recordsOf_snoc] at hagrees
  have htotal : hashedBytesOf canon (recordsOf (inputs ++ [input])) =
      hashedBytesOf canon (recordsOf inputs) + input.1.asRecord.hashedBytes canon := by
    rw [recordsOf_snoc, hashedBytesOf_snoc]
  have hdepth : a.normalizer.limits.maxDepth.toNat ≤ maxJsonDepth := by
    rw [h.hashed.limits_eq]
    exact h.hashed.depth
  have hhashed : a'.normalizer.fingerprintBytes =
      hashedBytesOf canon (recordsOf (inputs ++ [input])) := by
    rw [pushInner_hashes h.hashed.status hdepth hpush, h.hashed.hashed, htotal]
  refine ⟨hagrees, hlive, ⟨hagrees.normalizer, hhashed, ?_⟩,
    sealable_snoc.mpr ⟨h.sealable, hwelcome⟩⟩
  rw [hhashed, htotal]
  exact hwelcome.hashedBytes

theorem pushAll_snoc :
    a.pushAll (inputs ++ [input]) = ((a.pushAll inputs).push input.1 input.2).2 := by
  show List.foldl _ _ _ = _
  rw [List.foldl_append]
  rfl

/-- A live assembler takes an input or fails. -/
theorem push_cases (hlive : a.failed = false) (input : ValidatedRecord × Option BaselineAuthority) :
    (∃ a', a.pushInner input.1 input.2 = .ok a' ∧ a.push input.1 input.2 = (.ok (), a')) ∨
      (¬ ∃ a', a.pushInner input.1 input.2 = .ok a') ∧
        ∃ failure a', a.push input.1 input.2 = (.error failure, a') ∧ a'.failed = true := by
  unfold TraceAssembler.push
  rw [if_neg (by simp [hlive])]
  cases hpush : a.pushInner input.1 input.2 with
  | ok a' => exact .inl ⟨a', rfl, rfl⟩
  | error failure => exact .inr ⟨(fun ⟨_, h⟩ => by cases h), failure, _, rfl, rfl⟩

/-- A run fails at the first input that cannot be sealed with those before
it, and has accepted its inputs until then. -/
theorem Accepted.pushAll (h : Accepted canon session limits [] a)
    (inputs : List (ValidatedRecord × Option BaselineAuthority)) :
    (a.pushAll inputs).failed = true ∧ ¬ Sealable canon limits inputs ∨
      Accepted canon session limits inputs (a.pushAll inputs) := by
  induction inputs using List.reverseRecOn with
  | nil => exact .inr h
  | append_singleton inputs input ih =>
      rw [pushAll_snoc]
      rcases ih with ⟨hfailed, hunsealable⟩ | hbefore
      · left
        constructor
        · unfold TraceAssembler.push
          rw [if_pos hfailed]
          exact hfailed
        · exact fun hsealable => hunsealable (sealable_snoc.mp hsealable).1
      · rcases push_cases hbefore.live input with ⟨a', hpush, heq⟩ |
          ⟨hnone, failure, a', heq, hfailed⟩
        · right
          rw [heq]
          exact hbefore.push hpush
        · left
          rw [heq]
          exact ⟨hfailed, fun hsealable =>
            hnone (hbefore.push_exists.mpr (sealable_snoc.mp hsealable).2)⟩

end TraceAssembler

/-! ### The sealed trace -/

/-- The trace that inputs are sealed into. -/
structure SealedAs (session : SessionId) (limits : Limits)
    (inputs : List (ValidatedRecord × Option BaselineAuthority)) (trace : SealedTrace canon) :
    Prop where
  summary : ∃ header, headersOf (TraceAssembler.recordsOf inputs) = [header] ∧
    trace.summary = summaryOf (TraceAssembler.recordsOf inputs) header
  limits_eq : trace.limits = limits
  sealedSession : trace.sealedSession = { session := session, limits := limits }
  streams : trace.streams = (entriesOf inputs).filterMap (blueprintOf session limits)
  sources : trace.sources = (entriesOf inputs).filterMap (sourceOf canon session)
  sourceStreams : List.Forall₂ (fun source ordinal =>
    (streamIdsOf (TraceAssembler.recordsOf inputs))[ordinal]? = some source.streamId)
      trace.sources trace.sourceStreams
  schedules : trace.schedules = plansOf (TraceAssembler.recordsOf inputs)

section Sealed

variable {session : SessionId} {limits : Limits} {allocator : Allocator}
  {inputs : List (ValidatedRecord × Option BaselineAuthority)} {a : TraceAssembler canon}
  {trace : SealedTrace canon}

theorem recordsOf_eq_nil : TraceAssembler.recordsOf inputs = [] ↔ inputs = [] := List.map_eq_nil_iff

/-- A successful `finish` of what an assembler accepted. -/
theorem TraceAssembler.Accepted.finish_ok (h : Accepted canon session limits inputs a)
    (hfinish : a.finish allocator = .ok trace) : inputs ≠ [] ∧
      (∃ header, headersOf (recordsOf inputs) = [header] ∧
        trace.summary = summaryOf (recordsOf inputs) header) ∧
      trace.sealedSession = { session := session, limits := limits } := by
  obtain ⟨_, -, hfinish⟩ := bind_eq_ok.mp hfinish
  obtain ⟨plan, hplan, hfinish⟩ := bind_eq_ok.mp hfinish
  obtain ⟨sealedSession, hseal, hfinish⟩ := bind_eq_ok.mp hfinish
  obtain ⟨_, -, hfinish⟩ := bind_eq_ok.mp hfinish
  obtain ⟨_, -, hfinish⟩ := bind_eq_ok.mp hfinish
  obtain ⟨_, -, hfinish⟩ := bind_eq_ok.mp hfinish
  obtain rfl := pure_eq_ok.mp hfinish
  rw [mapError_eq_ok, h.validator] at hplan
  have hne : recordsOf inputs ≠ [] := by
    intro hnil
    rw [hnil] at hplan
    cases hplan
  refine ⟨fun hnil => hne (recordsOf_eq_nil.mpr hnil), ?_, ?_⟩
  · obtain ⟨header, hheaders, -⟩ := TraceValidator.header_after h.wellFormed hne
    rw [finishPlanned_eq h.wellFormed hheaders] at hplan
    obtain rfl := Except.ok.inj hplan
    exact ⟨header, hheaders, rfl⟩
  · unfold EnvelopeNormalizer.seal_ at hseal
    rw [if_pos h.hashed.status, h.hashed.session_eq, h.hashed.limits_eq] at hseal
    exact (Except.ok.inj (mapError_eq_ok.mp hseal)).symm

/-- An assembler that did not fail accepted its inputs. -/
theorem TraceAssembler.accepted_of_live (hnew : TraceAssembler.new session limits = .ok a)
    (hlive : (a.pushAll inputs).failed = false) :
    Accepted canon session limits inputs (a.pushAll inputs) := by
  rcases (new_accepted hnew).pushAll inputs with ⟨hfailed, -⟩ | haccepted
  · cases hfailed.symm.trans hlive
  · exact haccepted

/-- A trace is sealed of sealable inputs, and holds what they say. -/
theorem SealedTrace.sealedAs_of_finish (hnew : TraceAssembler.new session limits = .ok a)
    (hfinish : (a.pushAll inputs).finish allocator = .ok trace) :
    inputs ≠ [] ∧ Sealable canon limits inputs ∧ SealedAs session limits inputs trace := by
  obtain ⟨_, hlive, -⟩ := bind_eq_ok.mp hfinish
  rw [rejectIf_eq_ok, Bool.not_eq_true] at hlive
  have haccepted := TraceAssembler.accepted_of_live hnew hlive
  obtain ⟨hne, hsummary, hsession⟩ := haccepted.finish_ok hfinish
  obtain ⟨hstreams, hsources⟩ := gathered_of_finish hnew hfinish
  have hsealed := SealedTrace.finish_ok hnew hfinish
  exact ⟨hne, haccepted.sealable, hsummary, hsealed.limits_eq, hsession, hstreams, hsources,
    hsealed.sourceStreams, hsealed.schedules⟩

/-- An assembler takes an input exactly when it is sealable with all those
before it, and `finish` seals exactly the sealable inputs: into the summary of
the records, the registration of every stream, the prepared form of every
envelope, the stream of every source and the plan of every schedule, in the
order they came. -/
theorem TraceAssembler.seals_exactly (hdepth : limits.maxDepth.toNat ≤ maxJsonDepth) :
    ∃ start : TraceAssembler canon, TraceAssembler.new session limits = .ok start ∧
      ∀ inputs : List (ValidatedRecord × Option BaselineAuthority),
        (∀ input : ValidatedRecord × Option BaselineAuthority,
          ((start.pushAll inputs).push input.1 input.2).1 = .ok () ↔
            Sealable canon limits (inputs ++ [input])) ∧
        ∀ allocator : Allocator,
          ((∀ reservation n, allocator reservation n = true) →
            ((∃ trace, (start.pushAll inputs).finish allocator = .ok trace) ↔
              inputs ≠ [] ∧ Sealable canon limits inputs)) ∧
          ∀ trace, (start.pushAll inputs).finish allocator = .ok trace →
            Sealable canon limits inputs ∧ SealedAs session limits inputs trace := by
  obtain ⟨start, hnew, -, -⟩ := @new_agrees canon session limits hdepth
  have hstart := new_accepted hnew
  refine ⟨start, hnew, fun inputs => ⟨fun input => ?_, fun allocator => ⟨fun hallocator => ?_,
    fun trace hfinish => (SealedTrace.sealedAs_of_finish hnew hfinish).2⟩⟩⟩
  · rw [sealable_snoc]
    rcases hstart.pushAll inputs with ⟨hfailed, hunsealable⟩ | haccepted
    · apply iff_of_false
      · unfold TraceAssembler.push
        rw [if_pos hfailed]
        exact fun h => by cases h
      · exact fun hsealable => hunsealable hsealable.1
    · rw [and_iff_right haccepted.sealable, ← haccepted.push_exists]
      rcases push_cases haccepted.live input with ⟨a', hpush, heq⟩ | ⟨hnone, failure, a', heq, -⟩
      · rw [heq]
        exact iff_of_true rfl ⟨a', hpush⟩
      · rw [heq]
        exact iff_of_false (fun h => by cases h) hnone
  · constructor
    · rintro ⟨trace, hfinish⟩
      obtain ⟨hne, hsealable, -⟩ := SealedTrace.sealedAs_of_finish hnew hfinish
      exact ⟨hne, hsealable⟩
    · rintro ⟨hne, hsealable⟩
      rcases hstart.pushAll inputs with ⟨-, hunsealable⟩ | haccepted
      · exact absurd hsealable hunsealable
      · exact haccepted.toAgrees.finish haccepted.live (mt recordsOf_eq_nil.mp hne) hallocator

end Sealed

/-- The sample inputs are sealable. -/
theorem TraceAssembler.sample_seals_exactly :
    Sample.inputs ≠ [] ∧ Sealable Sample.canonical Sample.forgetful Sample.inputs := by
  obtain ⟨start, hnew, hruns⟩ := @TraceAssembler.seals_exactly Sample.canonical 0 Sample.forgetful
    (by decide)
  have hsealed : Sample.sealedTrace.toOption.isSome = true := by
    decide +kernel
  cases htrace : Sample.sealedTrace with
  | error failure =>
      rw [htrace] at hsealed
      cases hsealed
  | ok trace =>
      obtain ⟨a, hnew', hfinish⟩ := bind_eq_ok.mp htrace
      obtain rfl := Except.ok.inj (hnew'.symm.trans hnew)
      exact (((hruns Sample.inputs).2 Sample.granting).1 fun _ _ => rfl).mp ⟨trace, hfinish⟩

end KvCrucible

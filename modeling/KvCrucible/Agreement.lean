/-
KvCrucible/Agreement.lean

Validator and normalizer agree along every assembly run.

Both layers keep their own identity sets, counters and byte totals.  They are
coupled by the records accepted so far: `Coupled` reads every field of a
normalizer off the sequence, as `TraceValidator.after` does for a validator.
The byte totals differ by exactly the schedule identities, which only the
validator charges.  So a record the validator accepts passes every uniqueness
and capacity check of the normalizer, and what is left to fail is what the
validator never looks at: baseline authority and fingerprints.
-/
import KvCrucible.Assembly

namespace KvCrucible

open Basis Std

variable {canon : Canonical}

/-- How normalization may reject a record that passed structural
validation. -/
inductive NormalizationError : Record → StateError → Prop
  | authority {stream : StreamDeclaration} :
      NormalizationError (.stream stream) .baselineAuthorityMismatch
  | canonicalization {envelope : EventEnvelope} :
      NormalizationError (.envelope envelope) .fingerprintCanonicalization
  | traceBytes {envelope : EventEnvelope} {maximum observed : Nat} :
      NormalizationError (.envelope envelope) (.resourceLimit .fingerprintBytes maximum observed)
  | lineBytes {envelope : EventEnvelope} {maximum observed : Nat} :
      NormalizationError (.envelope envelope)
        (.resourceLimit .canonicalMutationBytes maximum observed)
  | overflow {envelope : EventEnvelope} :
      NormalizationError (.envelope envelope) .counterOverflow

/-! ### Counters -/

theorem addOrOverflow_eq_error {a b : Nat} {error : StateError}
    (h : addOrOverflow a b = .error error) : error = .counterOverflow := by
  unfold addOrOverflow at h
  split at h
  next => cases h
  next => exact (Except.error.inj h).symm

theorem usizeToU64_eq_error {a : Nat} {error : StateError}
    (h : usizeToU64 a = .error error) : error = .counterOverflow := by
  unfold usizeToU64 at h
  split at h
  next => cases h
  next => exact (Except.error.inj h).symm

/-! ### Scopes -/

/-- The validator's stream identity and the normalizer's scope have the same
fields. -/
theorem scope_eq_iff {stream other : StreamDeclaration} :
    CacheScope.ofStream stream = CacheScope.ofStream other ↔
      StreamIdentity.ofStream stream = StreamIdentity.ofStream other := by
  simp [CacheScope.ofStream, StreamIdentity.ofStream]

theorem scope_mem_iff {stream : StreamDeclaration} {streams : List StreamDeclaration} :
    CacheScope.ofStream stream ∈ streams.map CacheScope.ofStream ↔
      StreamIdentity.ofStream stream ∈ streams.map StreamIdentity.ofStream := by
  simp only [List.mem_map, scope_eq_iff]

theorem foldlM_lengths {lengths : List Nat} {total : Nat} (h : total + lengths.sum < 2 ^ 64) :
    (lengths.foldlM (fun total length => do
      let length ← usizeToU64 length
      addOrOverflow total length) total : Except StateError Nat) = .ok (total + lengths.sum) := by
  induction lengths generalizing total with
  | nil => rfl
  | cons length lengths ih =>
      rw [List.sum_cons, ← Nat.add_assoc] at h ⊢
      rw [List.foldlM_cons]
      refine bind_ok (bind_ok (usizeToU64_eq_ok.mpr ⟨rfl, ?_⟩)
        (addOrOverflow_eq_ok.mpr ⟨rfl, ?_⟩)) (ih h)
      · omega
      · omega

/-- A scope has the identity bytes the validator charges for its stream,
without those of the stream's name. -/
theorem CacheScope.identityBytes_ofStream (stream : StreamDeclaration)
    (h : (stream.identities.map len).sum < 2 ^ 64) :
    ∃ bytes, (CacheScope.ofStream stream).identityBytes = .ok bytes ∧
      len stream.streamId + bytes = (stream.identities.map len).sum := by
  have hsum : (stream.identities.map len).sum = len stream.streamId +
      [len stream.engine, len stream.engineVersion, len stream.engineInstance,
        len stream.publisher, len stream.epoch].sum := by
    simp [StreamDeclaration.identities]
  rw [hsum] at h ⊢
  refine ⟨_, foldlM_lengths ?_, ?_⟩
  · rw [Nat.zero_add]
    exact Nat.lt_of_le_of_lt (Nat.le_add_left _ _) h
  · rw [Nat.zero_add]
    rfl

/-! ### The coupling -/

namespace EnvelopeNormalizer

/-- The normalizer of `session` after it took the streams and envelopes of
`records`. -/
structure Coupled (session : SessionId) (limits : Limits) (records : List Record)
    (n : EnvelopeNormalizer) : Prop where
  depth : limits.maxDepth.toNat ≤ maxJsonDepth
  session_eq : n.session = session
  status : n.status = .open_
  limits_eq : n.limits = limits
  streams : ∀ id, id ∈ n.streams ↔ id ∈ streamIdsOf records
  streams_size : n.streams.size = (streamsOf records).length
  scopes : n.scopes = ((streamsOf records).map CacheScope.ofStream).toFinset
  envelopeIds : n.envelopeIds = (envelopeIdsOf records).toFinset
  envelopes : n.envelopes = (envelopesOf records).length
  identityBytes : n.identityBytes + ((scheduleIdsOf records).map len).sum =
    identityBytesOf records

variable {session : SessionId} {limits : Limits} {records : List Record} {n : EnvelopeNormalizer}

theorem coupled_new (hdepth : limits.maxDepth.toNat ≤ maxJsonDepth) :
    ∃ n, new session limits = .ok n ∧ Coupled session limits [] n := by
  have hok : validateDepth limits = .ok () := rejectIf_eq_ok.mpr (Nat.not_lt_of_le hdepth)
  refine ⟨_, bind_ok hok rfl, ?_⟩
  constructor <;> first | exact hdepth | rfl | simp [streamIdsOf, streamsOf]

/-- The validator alone takes headers and schedules. -/
theorem Coupled.skip (h : Coupled session limits records n) {record : Record}
    (hstream : record.stream? = none) (henvelope : record.envelope? = none) :
    Coupled session limits (records ++ [record]) n where
  depth := h.depth
  session_eq := h.session_eq
  status := h.status
  limits_eq := h.limits_eq
  streams := by
    rw [streamIdsOf_snoc, hstream]
    simpa using h.streams
  streams_size := by
    rw [streamsOf_snoc, hstream]
    simpa using h.streams_size
  scopes := by
    rw [streamsOf_snoc, hstream]
    simpa using h.scopes
  envelopeIds := by
    rw [envelopeIdsOf_snoc, henvelope]
    simpa using h.envelopeIds
  envelopes := by
    rw [envelopesOf_snoc, henvelope]
    simpa using h.envelopes
  identityBytes := by
    have hbytes := h.identityBytes
    rw [scheduleIdsOf_snoc, identityBytesOf_snoc, List.map_append, List.sum_append, ← hbytes]
    cases record with
    | traceHeader header => rfl
    | stream stream => cases hstream
    | envelope envelope => cases henvelope
    | faultSchedule schedule =>
        simp only [Record.schedule?, Record.identities, Option.toList_some, List.map_cons,
          List.map_nil, List.sum_singleton]
        omega

/-! ### Streams -/

/-- What the normalizer keeps of a stream that is new to it. -/
def bound (n : EnvelopeNormalizer) (registration : RegisteredStream) (bytes : Nat) :
    EnvelopeNormalizer :=
  { n with
    streams := n.streams.insert registration.streamId registration
    scopes := insert registration.scope n.scopes
    identityBytes := bytes }

theorem bindStreamInner_fresh (registration : RegisteredStream) {bytes : Nat}
    (hid : registration.streamId ∉ n.streams) (hscope : registration.scope ∉ n.scopes)
    (hstreams : n.streams.size + 1 ≤ n.limits.maxStreamsPerTrace.toNat)
    (hbytes : registration.scope.identityBytes = .ok bytes)
    (hle : n.identityBytes + (len registration.streamId + bytes) ≤
      n.limits.maxIdentityBytesPerTrace.toNat) :
    n.bindStreamInner registration = .ok (registration,
      n.bound registration (n.identityBytes + (len registration.streamId + bytes))) := by
  have hmax := n.limits.maxStreamsPerTrace.toNat_lt
  have hmaxBytes := n.limits.maxIdentityBytesPerTrace.toNat_lt
  unfold bindStreamInner
  rw [ExtTreeMap.getElem?_eq_none hid]
  exact bind_ok (rejectIf_neg hscope) <| bind_ok (usizeToU64_eq_ok.mpr ⟨rfl, by omega⟩) <|
    bind_ok (addOrOverflow_eq_ok.mpr ⟨rfl, by omega⟩) <|
    bind_ok (rejectIf_neg (Nat.not_lt_of_le hstreams)) <|
    bind_ok (usizeToU64_eq_ok.mpr ⟨rfl, by omega⟩) <| bind_ok hbytes <|
    bind_ok (addOrOverflow_eq_ok.mpr ⟨rfl, by omega⟩) <|
    bind_ok (addOrOverflow_eq_ok.mpr ⟨rfl, by omega⟩) <|
    bind_ok (rejectIf_neg (Nat.not_lt_of_le hle)) rfl

/-- The normalizer follows the validator through a new stream. -/
theorem Coupled.bound (h : Coupled session limits records n) {stream : StreamDeclaration}
    (hid : stream.streamId ∉ streamIdsOf records) (registration : RegisteredStream)
    (hname : registration.streamId = stream.streamId)
    (hscope : registration.scope = CacheScope.ofStream stream) :
    Coupled session limits (records ++ [.stream stream])
      (n.bound registration (n.identityBytes + (stream.identities.map len).sum)) where
  depth := h.depth
  session_eq := h.session_eq
  status := h.status
  limits_eq := h.limits_eq
  streams := fun id => by
    show id ∈ n.streams.insert _ _ ↔ _
    rw [ExtTreeMap.mem_insert, h.streams, streamIdsOf_snoc, hname, Std.compare_eq_iff_eq]
    simp [or_comm, eq_comm]
  streams_size := by
    have hfresh : stream.streamId ∉ n.streams := fun hmem => hid ((h.streams _).mp hmem)
    show (n.streams.insert _ _).size = _
    rw [hname, size_insert_of_none (ExtTreeMap.getElem?_eq_none hfresh), h.streams_size,
      streamsOf_snoc, List.length_append]
    rfl
  scopes := by
    show insert registration.scope n.scopes = _
    rw [hscope, h.scopes, streamsOf_snoc]
    simp
  envelopeIds := by
    show n.envelopeIds = _
    rw [envelopeIdsOf_snoc, h.envelopeIds]
    simp
  envelopes := by
    show n.envelopes = _
    rw [envelopesOf_snoc, h.envelopes]
    simp
  identityBytes := by
    have hbytes := h.identityBytes
    show n.identityBytes + _ + _ = _
    rw [scheduleIdsOf_snoc, identityBytesOf_snoc, ← hbytes]
    simp only [Record.schedule?, Record.identities, Option.toList_none, List.map_nil,
      List.append_nil]
    omega

/-- A stream that extends a well-formed beginning is registered, unless its
authority contradicts its baseline. -/
theorem Coupled.registerStream (h : Coupled session limits records n) {record : ValidatedRecord}
    {stream : StreamDeclaration} (hrecord : record.asRecord = .stream stream)
    (hwell : WellFormed limits (records ++ [.stream stream])) (authority : BaselineAuthority) :
    (∃ blueprint n', n.registerStream record authority = (.ok blueprint, n') ∧
      blueprint.session = session ∧ blueprint.limits = limits ∧
      Coupled session limits (records ++ [.stream stream]) n') ∨
    n.registerStream record authority = (.error .baselineAuthorityMismatch, n) := by
  obtain ⟨-, hvalid, -, -, hid, hidentity, hstreams, hbytes⟩ := wellFormed_snoc.mp hwell
  have hmaxBytes := limits.maxIdentityBytesPerTrace.toNat_lt
  have hdepth : validateDepth n.limits = .ok () := by
    rw [h.limits_eq]
    exact rejectIf_neg (Nat.not_lt_of_le h.depth)
  have hvalid : record.asRecord.validate n.limits = .ok () := by
    rw [h.limits_eq, hrecord]
    exact hvalid
  have hdeclaration : n.registerStream record authority =
      n.registerDeclaration stream authority := by
    unfold EnvelopeNormalizer.registerStream
    rw [if_neg (not_not_intro h.status), hdepth, hvalid, hrecord]
  rw [hdeclaration]
  unfold registerDeclaration
  by_cases hauthority : authority = .trustDeclaredEmpty → stream.baseline = .emptyAtEngineStart
  · refine .inl ?_
    obtain ⟨bytes, hscopeBytes, hsum⟩ := CacheScope.identityBytes_ofStream stream (by omega)
    -- schedule identities leave the normalizer at most what the validator has
    have hcharged : n.identityBytes ≤ identityBytesOf records := by
      rw [← h.identityBytes]
      exact Nat.le_add_right _ _
    have hfresh : stream.streamId ∉ n.streams := fun hmem => hid ((h.streams _).mp hmem)
    have hscope : CacheScope.ofStream stream ∉ n.scopes := by
      rw [h.scopes, List.mem_toFinset]
      exact fun hmem => hidentity (scope_mem_iff.mp hmem)
    have hcount : n.streams.size + 1 ≤ n.limits.maxStreamsPerTrace.toNat := by
      rw [h.streams_size, h.limits_eq]
      exact hstreams
    have hle : n.identityBytes + (len stream.streamId + bytes) ≤
        n.limits.maxIdentityBytesPerTrace.toNat := by
      rw [h.limits_eq, hsum]
      exact (Nat.add_le_add_right hcharged _).trans hbytes
    have hinner := bindStreamInner_fresh (registrationOf stream authority hauthority) hfresh hscope
      hcount hscopeBytes hle
    rw [dif_pos hauthority]
    unfold bindStream
    rw [hinner]
    refine ⟨_, _, rfl, h.session_eq, h.limits_eq, ?_⟩
    have hbound := h.bound hid (registrationOf stream authority hauthority) rfl rfl
    rwa [← hsum] at hbound
  · exact .inr (dif_neg hauthority)

/-! ### Envelopes -/

/-- What the normalizer keeps of an envelope that is new to it. -/
def prepared (n : EnvelopeNormalizer) (envelope : EventEnvelope) (fingerprintBytes : Nat) :
    EnvelopeNormalizer :=
  { n with
    fingerprintBytes := fingerprintBytes
    envelopes := n.envelopes + 1
    identityBytes := n.identityBytes + len envelope.envelopeId
    envelopeIds := insert envelope.envelopeId n.envelopeIds }

theorem prepareEnvelope_prepared {envelope : EventEnvelope}
    {result : PreparedEnvelope canon × EnvelopeNormalizer}
    (h : n.prepareEnvelope canon envelope = .ok result) :
    result.1.session = n.session ∧ ∃ bytes, result.2 = n.prepared envelope bytes := by
  obtain ⟨_, -, h⟩ := bind_eq_ok.mp h
  obtain ⟨envelopes, henvelopes, h⟩ := bind_eq_ok.mp h
  obtain ⟨_, -, h⟩ := bind_eq_ok.mp h
  obtain ⟨length, hlength, h⟩ := bind_eq_ok.mp h
  obtain ⟨identityBytes, hidentityBytes, h⟩ := bind_eq_ok.mp h
  obtain ⟨_, -, h⟩ := bind_eq_ok.mp h
  split at h
  next => cases h
  next =>
    obtain ⟨fingerprintBytes, -, h⟩ := bind_eq_ok.mp h
    obtain ⟨_, -, h⟩ := bind_eq_ok.mp h
    obtain rfl := pure_eq_ok.mp h
    obtain ⟨rfl, -⟩ := addOrOverflow_eq_ok.mp henvelopes
    obtain ⟨rfl, -⟩ := usizeToU64_eq_ok.mp hlength
    obtain ⟨rfl, -⟩ := addOrOverflow_eq_ok.mp hidentityBytes
    exact ⟨rfl, fingerprintBytes, rfl⟩

/-- Hashing fails with a fingerprint or counter error only. -/
theorem computeFingerprint_error {envelope : EventEnvelope} {error : StateError}
    (h : n.computeFingerprint canon envelope = .error error) :
    NormalizationError (.envelope envelope) error := by
  rcases bind_eq_error h with h | ⟨remaining, -, h⟩
  · unfold subOrOverflow at h
    split at h
    next => cases h
    next =>
      cases h
      exact .overflow
  · dsimp only at h
    split at h
    next => cases h
    next failure _ =>
      cases h
      cases failure with
      | canonicalization => exact .canonicalization
      | counterOverflow => exact .overflow
      | resourceLimit maximum observed =>
          unfold mapFingerprintError
          dsimp only
          split
          next => exact .traceBytes
          next => exact .lineBytes

/-- Past its own uniqueness and capacity checks an envelope can only fail to
be hashed. -/
theorem prepareEnvelope_error {envelope : EventEnvelope} {error : StateError}
    (hid : envelope.envelopeId ∉ n.envelopeIds)
    (hcount : n.envelopes + 1 ≤ n.limits.maxEnvelopesPerTrace.toNat)
    (hbytes : n.identityBytes + len envelope.envelopeId ≤
      n.limits.maxIdentityBytesPerTrace.toNat)
    (h : n.prepareEnvelope canon envelope = .error error) :
    NormalizationError (.envelope envelope) error := by
  rcases bind_eq_error h with h | ⟨_, -, h⟩
  · exact absurd (rejectIf_eq_error.mp h).1 hid
  rcases bind_eq_error h with h | ⟨envelopes, henvelopes, h⟩
  · rw [addOrOverflow_eq_error h]
    exact .overflow
  obtain ⟨rfl, -⟩ := addOrOverflow_eq_ok.mp henvelopes
  rcases bind_eq_error h with h | ⟨_, -, h⟩
  · exact absurd (rejectIf_eq_error.mp h).1 (Nat.not_lt_of_le hcount)
  rcases bind_eq_error h with h | ⟨length, hlength, h⟩
  · rw [usizeToU64_eq_error h]
    exact .overflow
  obtain ⟨rfl, -⟩ := usizeToU64_eq_ok.mp hlength
  rcases bind_eq_error h with h | ⟨identityBytes, hidentityBytes, h⟩
  · rw [addOrOverflow_eq_error h]
    exact .overflow
  obtain ⟨rfl, -⟩ := addOrOverflow_eq_ok.mp hidentityBytes
  rcases bind_eq_error h with h | ⟨_, -, h⟩
  · exact absurd (rejectIf_eq_error.mp h).1 (Nat.not_lt_of_le hbytes)
  -- only the trace budget of the fingerprints is left
  split at h
  next failure hcompute =>
    cases h
    exact computeFingerprint_error hcompute
  next =>
    rcases bind_eq_error h with h | ⟨_, -, h⟩
    · rw [addOrOverflow_eq_error h]
      exact .overflow
    rcases bind_eq_error h with h | ⟨_, -, h⟩
    · obtain ⟨-, rfl⟩ := rejectIf_eq_error.mp h
      exact .traceBytes
    · cases h

/-- The normalizer follows the validator through a new envelope. -/
theorem Coupled.prepared (h : Coupled session limits records n) (envelope : EventEnvelope)
    (bytes : Nat) :
    Coupled session limits (records ++ [.envelope envelope]) (n.prepared envelope bytes) where
  depth := h.depth
  session_eq := h.session_eq
  status := h.status
  limits_eq := h.limits_eq
  streams := fun id => by
    show id ∈ n.streams ↔ _
    rw [h.streams, streamIdsOf_snoc]
    simp
  streams_size := by
    show n.streams.size = _
    rw [h.streams_size, streamsOf_snoc]
    simp
  scopes := by
    show n.scopes = _
    rw [h.scopes, streamsOf_snoc]
    simp
  envelopeIds := by
    show insert envelope.envelopeId n.envelopeIds = _
    rw [h.envelopeIds, envelopeIdsOf_snoc]
    simp
  envelopes := by
    show n.envelopes + 1 = _
    rw [h.envelopes, envelopesOf_snoc]
    simp
  identityBytes := by
    have hbytes := h.identityBytes
    show n.identityBytes + _ + _ = _
    rw [scheduleIdsOf_snoc, identityBytesOf_snoc, ← hbytes]
    simp only [Record.schedule?, Record.identities, Option.toList_none, List.map_nil,
      List.append_nil, List.map_cons, List.sum_singleton]
    omega

/-- An envelope that extends a well-formed beginning is prepared, unless it
cannot be hashed within the budgets. -/
theorem Coupled.prepare (h : Coupled session limits records n) {record : ValidatedRecord}
    {envelope : EventEnvelope} (hrecord : record.asRecord = .envelope envelope)
    (hwell : WellFormed limits (records ++ [.envelope envelope])) :
    (∃ source n', n.prepare canon record = (.ok source, n') ∧ source.session = session ∧
      Coupled session limits (records ++ [.envelope envelope]) n') ∨
    ∃ error n', n.prepare canon record = (.error error, n') ∧
      NormalizationError (.envelope envelope) error := by
  obtain ⟨-, hvalid, -, -, hid, hcount, hbytes⟩ := wellFormed_snoc.mp hwell
  have hvalid : record.asRecord.validate n.limits = .ok () := by
    rw [h.limits_eq, hrecord]
    exact hvalid
  have hinner : n.prepareInner canon record = n.prepareEnvelope canon envelope := by
    unfold prepareInner
    rw [hvalid, hrecord]
  unfold EnvelopeNormalizer.prepare
  rw [if_neg (not_not_intro h.status), hinner]
  cases hresult : n.prepareEnvelope canon envelope with
  | ok result =>
      obtain ⟨hsession, bytes, hafter⟩ := prepareEnvelope_prepared hresult
      refine .inl ⟨_, _, rfl, hsession.trans h.session_eq, ?_⟩
      rw [hafter]
      exact h.prepared envelope bytes
  | error error =>
      refine .inr ⟨_, _, rfl, prepareEnvelope_error ?_ ?_ ?_ hresult⟩
      · rw [h.envelopeIds, List.mem_toFinset]
        exact hid
      · rw [h.envelopes, h.limits_eq]
        exact hcount
      · rw [h.limits_eq]
        refine Nat.le_trans (Nat.add_le_add_right ?_ _) hbytes
        rw [← h.identityBytes]
        exact Nat.le_add_right _ _

end EnvelopeNormalizer

/-! ### The assembler -/

namespace TraceAssembler

/-- An assembler whose layers agree on the records it accepted. -/
structure Agrees (session : SessionId) (limits : Limits) (records : List Record)
    (a : TraceAssembler canon) : Prop extends Assembled limits records a where
  normalizer : a.normalizer.Coupled session limits records
  blueprints : ∀ blueprint ∈ a.streams, blueprint.session = session ∧ blueprint.limits = limits
  prepared : ∀ source ∈ a.sources, source.session = session

variable {session : SessionId} {limits : Limits} {records : List Record}
  {a a' : TraceAssembler canon} {record : ValidatedRecord}

theorem new_agrees (hdepth : limits.maxDepth.toNat ≤ maxJsonDepth) :
    ∃ a : TraceAssembler canon, new session limits = .ok a ∧ a.failed = false ∧
      Agrees session limits [] a := by
  obtain ⟨normalizer, hnormalizer, hcoupled⟩ :=
    @EnvelopeNormalizer.coupled_new session limits hdepth
  have hvalidator : TraceValidator.new limits = .ok (.empty limits) :=
    bind_ok (rejectIf_neg (Nat.not_lt_of_le hdepth)) rfl
  have hnew : new session limits = .ok ({
      validator := .empty limits
      normalizer := normalizer
      streams := []
      sources := []
      failed := false } : TraceAssembler canon) := by
    unfold new
    rw [hvalidator, hnormalizer]
    rfl
  obtain ⟨hassembled, hlive⟩ := new_ok hnew
  exact ⟨_, hnew, hlive, hassembled, hcoupled, List.forall_mem_nil _, List.forall_mem_nil _⟩

theorem pushStream_ok {authority : BaselineAuthority} {blueprint : StreamBlueprint}
    {n : EnvelopeNormalizer}
    (h : a.normalizer.registerStream record authority = (.ok blueprint, n)) :
    a.pushStream record authority =
      .ok { a with normalizer := n, streams := a.streams ++ [blueprint] } := by
  unfold pushStream
  rw [h]

theorem pushStream_error {authority : BaselineAuthority} {error : StateError}
    {n : EnvelopeNormalizer}
    (h : a.normalizer.registerStream record authority = (.error error, n)) :
    a.pushStream record authority = .error (.error (.normalization error)) := by
  unfold pushStream
  rw [h]

theorem pushEnvelope_ok {source : PreparedEnvelope canon} {n : EnvelopeNormalizer}
    (h : a.normalizer.prepare canon record = (.ok source, n)) :
    a.pushEnvelope record =
      .ok { a with normalizer := n, sources := a.sources ++ [source] } := by
  unfold pushEnvelope
  rw [h]

theorem pushEnvelope_error {error : StateError} {n : EnvelopeNormalizer}
    (h : a.normalizer.prepare canon record = (.error error, n)) :
    a.pushEnvelope record = .error (.error (.normalization error)) := by
  unfold pushEnvelope
  rw [h]

/-- What the normalizer makes of a record the validator accepted: the layers
still agree, or it fails for a reason the validator does not know. -/
def Normalizes (session : SessionId) (limits : Limits) (records : List Record) (record : Record)
    (result : Except ScenarioFailure (TraceAssembler canon)) : Prop :=
  (∃ a, result = .ok a ∧ a.failed = false ∧ Agrees session limits (records ++ [record]) a) ∨
    ∃ error, result = .error (.error (.normalization error)) ∧ NormalizationError record error

theorem Agrees.pushNormalizer (h : Agrees session limits records a) (hlive : a.failed = false)
    {authority authority' : Option BaselineAuthority}
    (hauthority : streamAuthority (RecordRoute.ofRecord record.asRecord) authority =
      .ok authority')
    (hvalidator : a.pushValidator record = .ok a') :
    Normalizes session limits records record.asRecord
      (a'.pushNormalizer record (RecordRoute.ofRecord record.asRecord) authority') := by
  have hassembled : ∀ a'', a'.pushNormalizer record (RecordRoute.ofRecord record.asRecord)
      authority' = .ok a'' →
        Assembled limits (records ++ [record.asRecord]) a'' ∧ a''.failed = false := by
    intro a'' hpush
    obtain ⟨hafter, hfailed⟩ :=
      h.toAssembled.pushInner (bind_ok hauthority (bind_ok hvalidator hpush))
    exact ⟨hafter, hfailed.trans hlive⟩
  obtain ⟨hwell, rfl⟩ := h.pushValidator hvalidator
  cases hrecord : record.asRecord with
  | traceHeader header =>
      rw [hrecord] at hassembled
      obtain ⟨hafter, hfailed⟩ := hassembled _ rfl
      exact .inl ⟨_, rfl, hfailed, hafter, h.normalizer.skip rfl rfl, h.blueprints, h.prepared⟩
  | stream stream =>
      rw [hrecord] at hassembled hauthority hwell
      cases authority with
      | none => cases hauthority
      | some authority =>
          obtain rfl := Except.ok.inj hauthority
          rcases h.normalizer.registerStream hrecord hwell authority with
            ⟨blueprint, n, hregister, hsession, hlimits, hnormalizer⟩ | hregister
          · have hpush := pushStream_ok (a := {a with
              validator := TraceValidator.after limits (records ++ [.stream stream]) }) hregister
            obtain ⟨hafter, hfailed⟩ := hassembled _ hpush
            refine .inl ⟨_, hpush, hfailed, hafter, hnormalizer, ?_, h.prepared⟩
            exact List.forall_mem_append.mpr
              ⟨h.blueprints, List.forall_mem_singleton.mpr ⟨hsession, hlimits⟩⟩
          · exact .inr ⟨_, pushStream_error hregister, .authority⟩
  | envelope envelope =>
      rw [hrecord] at hassembled hwell
      rcases h.normalizer.prepare hrecord hwell with
        ⟨source, n, hprepare, hsession, hnormalizer⟩ | ⟨error, n, hprepare, herror⟩
      · have hpush := pushEnvelope_ok (a := {a with
          validator := TraceValidator.after limits (records ++ [.envelope envelope]) }) hprepare
        obtain ⟨hafter, hfailed⟩ := hassembled _ hpush
        refine .inl ⟨_, hpush, hfailed, hafter, hnormalizer, h.blueprints, ?_⟩
        exact List.forall_mem_append.mpr ⟨h.prepared, List.forall_mem_singleton.mpr hsession⟩
      · exact .inr ⟨error, pushEnvelope_error hprepare, herror⟩
  | faultSchedule schedule =>
      rw [hrecord] at hassembled
      obtain ⟨hafter, hfailed⟩ := hassembled _ rfl
      exact .inl ⟨_, rfl, hfailed, hafter, h.normalizer.skip rfl rfl, h.blueprints, h.prepared⟩

/-- A push the assembler accepts keeps the layers in agreement. -/
theorem Agrees.push (h : Agrees session limits records a) (hlive : a.failed = false)
    {authority : Option BaselineAuthority} (hpush : a.pushInner record authority = .ok a') :
    Agrees session limits (records ++ [record.asRecord]) a' ∧ a'.failed = false := by
  obtain ⟨authority', hauthority, hpush⟩ := bind_eq_ok.mp hpush
  obtain ⟨a₁, hvalidator, hpush⟩ := bind_eq_ok.mp hpush
  rcases h.pushNormalizer hlive hauthority hvalidator with ⟨a₂, hok, hlive', h'⟩ | ⟨_, herror, -⟩
  · obtain rfl := Except.ok.inj (hok.symm.trans hpush)
    exact ⟨h', hlive'⟩
  · cases herror.symm.trans hpush

theorem Agrees.pushAll (h : Agrees session limits records a) (hlive : a.failed = false)
    {inputs : List (ValidatedRecord × Option BaselineAuthority)}
    (hend : (a.pushAll inputs).failed = false) :
    Agrees session limits (records ++ recordsOf inputs) (a.pushAll inputs) :=
  pushAll_induction (fun h hlive hpush => h.push hlive hpush) h hlive hend

theorem pushInner_failed {authority : Option BaselineAuthority}
    (h : a.pushInner record authority = .ok a') : a'.failed = a.failed := by
  obtain ⟨authority', -, h⟩ := bind_eq_ok.mp h
  obtain ⟨a₁, hvalidator, h⟩ := bind_eq_ok.mp h
  have hvalidator : a₁.failed = a.failed := by
    unfold pushValidator at hvalidator
    split at hvalidator
    next => rw [← Except.ok.inj hvalidator]
    next => cases hvalidator
  rw [← hvalidator]
  unfold TraceAssembler.pushNormalizer at h
  split at h
  next =>
    unfold pushStream at h
    split at h
    next => rw [← Except.ok.inj h]
    next => cases h
  next => cases h
  next =>
    unfold pushEnvelope at h
    split at h
    next => rw [← Except.ok.inj h]
    next => cases h
  next => rw [← Except.ok.inj h]

/-- An assembler whose every push succeeded did not fail. -/
theorem pushAll_live (hlive : a.failed = false)
    {inputs : List (ValidatedRecord × Option BaselineAuthority)}
    (h : ∀ before input after, inputs = before ++ input :: after →
      ((a.pushAll before).push input.1 input.2).1 = .ok ()) :
    (a.pushAll inputs).failed = false := by
  induction inputs using List.reverseRecOn with
  | nil => exact hlive
  | append_singleton inputs input ih =>
      have hbefore : (a.pushAll inputs).failed = false := by
        refine ih fun before input' after hinputs => h before input' (after ++ [input]) ?_
        rw [hinputs, List.append_assoc]
        rfl
      have hlast := h inputs input [] rfl
      have hstep : a.pushAll (inputs ++ [input]) = ((a.pushAll inputs).push input.1 input.2).2 := by
        show List.foldl _ _ _ = _
        rw [List.foldl_append]
        rfl
      rw [hstep]
      unfold TraceAssembler.push at hlast ⊢
      rw [if_neg (by simp [hbefore])] at hlast ⊢
      cases hpush : (a.pushAll inputs).pushInner input.1 input.2 with
      | error failure =>
          rw [hpush] at hlast
          cases hlast
      | ok a' => exact (pushInner_failed hpush).trans hbefore

/-- What an assembler whose layers agree is sealed into. -/
theorem Agrees.finish (h : Agrees session limits records a) (hlive : a.failed = false)
    (hne : records ≠ []) {allocator : Allocator}
    (hallocator : ∀ reservation n, allocator reservation n = true) :
    ∃ trace, a.finish allocator = .ok trace := by
  obtain ⟨summary, hplan⟩ := TraceValidator.finishPlanned_after h.wellFormed hne
  have hstreams : a.streams.map (·.registration.streamId) = streamIdsOf records :=
    SealedTrace.map_streamId h.streams
  have hsources : a.sources.map (·.envelopeId) = envelopeIdsOf records :=
    SealedTrace.map_envelopeId h.sources
  have hseal : a.normalizer.seal_ = .ok { session := session, limits := limits } := by
    unfold EnvelopeNormalizer.seal_
    rw [if_pos h.normalizer.status, h.normalizer.session_eq, h.normalizer.limits_eq]
  -- every source names a stream that was declared before it
  obtain ⟨sourceStreams, hsourceStreams⟩ : ∃ sourceStreams, a.sources.mapM (fun source =>
      okOr (SealedTrace.streamOrdinals a.streams)[source.streamId]?
        (ScenarioFailure.error .assemblyInvariant)) = .ok sourceStreams := by
    refine mapM_total fun source hsource => ?_
    obtain ⟨i, hi⟩ := List.getElem?_of_mem hsource
    obtain ⟨envelope, henvelope, hprepared⟩ := getElem?_of_forall₂ h.sources hi
    have hmem := SealedTrace.mem_streamIdsOf h.wellFormed (List.mem_of_getElem? henvelope)
    rw [← hprepared.streamId] at hmem
    obtain ⟨ordinal, hordinal⟩ := List.getElem?_of_mem hmem
    exact ⟨ordinal, okOr_eq_ok.mpr
      ((SealedTrace.streamOrdinals_eq_some hstreams h.wellFormed.streamIds).mpr hordinal)⟩
  have hbound : (SealedTrace.bindOwned allocator
      { summary := summary
        limits := limits
        streamIds := streamIdsOf records
        envelopeIds := envelopeIdsOf records
        schedules := plansOf records }
      { session := session, limits := limits } a.streams a.sources) = .ok {
        summary := summary
        limits := limits
        sealedSession := { session := session, limits := limits }
        streams := a.streams
        sources := a.sources
        sourceStreams := sourceStreams
        schedules := plansOf records } := by
    refine bind_ok (rejectIf_neg ?_) (bind_ok (rejectIf_neg ?_) (bind_ok hsourceStreams rfl))
    · rintro (hlimits | hids | ⟨blueprint, hmem, howns⟩ | hids | ⟨source, hmem, howns⟩)
      · exact hlimits rfl
      · exact hids hstreams.symm
      · exact of_decide_eq_false howns (h.blueprints blueprint hmem).1.symm
      · exact hids hsources.symm
      · exact of_decide_eq_false howns (h.prepared source hmem).symm
    · rw [hallocator]
      exact Bool.noConfusion
  refine ⟨_, bind_ok (rejectIf_neg ?_) (bind_ok (mapError_eq_ok.mpr ?_)
    (bind_ok (mapError_eq_ok.mpr hseal) hbound))⟩
  · rw [hlive]
    exact Bool.false_ne_true
  · rw [h.validator]
    exact hplan

end TraceAssembler

namespace SealedTrace

variable {session : SessionId} {limits : Limits} {records : List Record}

/-- A sealed trace with everything in it bound to one session. -/
structure SealedIn (session : SessionId) (limits : Limits) (records : List Record)
    (trace : SealedTrace canon) : Prop extends SealedFrom limits records trace where
  sealedSession : trace.sealedSession.session = session
  blueprints : ∀ blueprint ∈ trace.streams,
    blueprint.session = session ∧ blueprint.limits = limits
  prepared : ∀ source ∈ trace.sources, source.session = session

/-- A successful `finish` seals one session. -/
theorem finish_sealed {allocator : Allocator} {trace : SealedTrace canon}
    {inputs : List (ValidatedRecord × Option BaselineAuthority)} {a : TraceAssembler canon}
    (hnew : TraceAssembler.new session limits = .ok a)
    (hfinish : (a.pushAll inputs).finish allocator = .ok trace) :
    SealedIn session limits (TraceAssembler.recordsOf inputs) trace := by
  have hsealed := finish_ok hnew hfinish
  obtain ⟨validator, hvalidator, -⟩ := bind_eq_ok.mp hnew
  rw [mapError_eq_ok] at hvalidator
  obtain ⟨_, hdepth, -⟩ := bind_eq_ok.mp hvalidator
  obtain ⟨start, hstart, hlive, hagrees⟩ := @TraceAssembler.new_agrees canon session limits
    (Nat.le_of_not_lt (rejectIf_eq_ok.mp hdepth))
  obtain rfl := Except.ok.inj (hnew.symm.trans hstart)
  obtain ⟨_, hfailed, hfinish⟩ := bind_eq_ok.mp hfinish
  rw [rejectIf_eq_ok, Bool.not_eq_true] at hfailed
  have hend := hagrees.pushAll hlive hfailed
  obtain ⟨_, -, hfinish⟩ := bind_eq_ok.mp hfinish
  obtain ⟨sealedSession, hseal, hfinish⟩ := bind_eq_ok.mp hfinish
  obtain ⟨_, -, hfinish⟩ := bind_eq_ok.mp hfinish
  obtain ⟨_, -, hfinish⟩ := bind_eq_ok.mp hfinish
  obtain ⟨_, -, hfinish⟩ := bind_eq_ok.mp hfinish
  obtain rfl := pure_eq_ok.mp hfinish
  refine ⟨hsealed, ?_, hend.blueprints, hend.prepared⟩
  unfold EnvelopeNormalizer.seal_ at hseal
  rw [if_pos hend.normalizer.status] at hseal
  rw [← Except.ok.inj (mapError_eq_ok.mp hseal)]
  exact hend.normalizer.session_eq

end SealedTrace

/-! ### The agreement -/

/-- Along every assembly run the layers agree.  Normalization of a record the
validator accepted fails only for its authority or its fingerprint, and a run
whose pushes all succeeded is sealed, with its streams and sources in physical
order and every source routed to the stream it names. -/
theorem TraceAssembler.layers_agree {session : SessionId} {limits : Limits}
    (hdepth : limits.maxDepth.toNat ≤ maxJsonDepth) :
    ∃ start : TraceAssembler canon, TraceAssembler.new session limits = .ok start ∧
      (∀ (inputs : List (ValidatedRecord × Option BaselineAuthority)) (record : ValidatedRecord)
        (authority authority' : Option BaselineAuthority) (a : TraceAssembler canon)
        (failure : ScenarioFailure),
        (start.pushAll inputs).failed = false →
        streamAuthority (RecordRoute.ofRecord record.asRecord) authority = .ok authority' →
        (start.pushAll inputs).pushValidator record = .ok a →
        a.pushNormalizer record (RecordRoute.ofRecord record.asRecord) authority' =
          .error failure →
        ∃ error, failure = .error (.normalization error) ∧
          NormalizationError record.asRecord error) ∧
      ∀ (inputs : List (ValidatedRecord × Option BaselineAuthority)) (allocator : Allocator),
        inputs ≠ [] →
        (∀ before input after, inputs = before ++ input :: after →
          ((start.pushAll before).push input.1 input.2).1 = .ok ()) →
        (∀ reservation n, allocator reservation n = true) →
        ∃ trace, (start.pushAll inputs).finish allocator = .ok trace ∧
          List.Forall₂ Registered (streamsOf (recordsOf inputs)) trace.streams ∧
          List.Forall₂ Prepared (envelopesOf (recordsOf inputs)) trace.sources ∧
          List.Forall₂ (fun source ordinal =>
            (streamIdsOf (recordsOf inputs))[ordinal]? = some source.streamId)
            trace.sources trace.sourceStreams := by
  obtain ⟨start, hnew, hlive, hstart⟩ := @new_agrees canon session limits hdepth
  refine ⟨start, hnew, ?_, ?_⟩
  · intro inputs record authority authority' a failure hend hauthority hvalidator hpush
    have hagrees := hstart.pushAll hlive hend
    rcases hagrees.pushNormalizer hend hauthority hvalidator with
      ⟨a', hok, -⟩ | ⟨error, herror, hnormalization⟩
    · cases hok.symm.trans hpush
    · exact ⟨error, Except.error.inj (hpush.symm.trans herror), hnormalization⟩
  · intro inputs allocator hne hpushes hallocator
    have hend := pushAll_live hlive hpushes
    have hagrees := hstart.pushAll hlive hend
    have hrecords : [] ++ recordsOf inputs ≠ [] := by
      rw [List.nil_append, recordsOf, Ne, List.map_eq_nil_iff]
      exact hne
    obtain ⟨trace, hfinish⟩ := hagrees.finish hend hrecords hallocator
    have hsealed := SealedTrace.finish_ok hnew hfinish
    exact ⟨trace, hfinish, hsealed.streams, hsealed.sources, hsealed.sourceStreams⟩

/-- The sample records are sealed. -/
theorem TraceAssembler.sample_layers_agree :
    ∃ start : TraceAssembler Sample.canonical, Sample.assembler = .ok start ∧
      ∃ trace, (start.pushAll Sample.inputs).finish Sample.granting = .ok trace ∧
        List.Forall₂ Prepared (envelopesOf (recordsOf Sample.inputs)) trace.sources := by
  obtain ⟨start, hnew, -, hfinish⟩ :=
    @TraceAssembler.layers_agree Sample.canonical 0 Sample.forgetful (by decide)
  have hpushes : Sample.assembler.toOption.map (fun start => (List.range 5).all fun i =>
      (Sample.inputs[i]?).all fun input =>
        ((start.pushAll (Sample.inputs.take i)).push input.1 input.2).1.isOk) = some true := by
    decide +kernel
  have hnew' : Sample.assembler = .ok start := hnew
  rw [hnew'] at hpushes
  have hall : ∀ before input after, Sample.inputs = before ++ input :: after →
      ((start.pushAll before).push input.1 input.2).1 = .ok () := by
    intro before input after hinputs
    have hlength : before.length < 5 := by
      have htotal : Sample.inputs.length = 5 := rfl
      rw [hinputs, List.length_append, List.length_cons] at htotal
      omega
    have hget : Sample.inputs[before.length]? = some input := by
      rw [hinputs, List.getElem?_append_right (Nat.le_refl _), Nat.sub_self]
      rfl
    have htake : Sample.inputs.take before.length = before := by
      rw [hinputs, List.take_left]
    have hone := List.all_eq_true.mp (Option.some.inj hpushes) before.length
      (List.mem_range.mpr hlength)
    rw [hget, htake] at hone
    cases hresult : ((start.pushAll before).push input.1 input.2).1 with
    | ok value => rfl
    | error failure =>
        rw [Option.all_some, hresult] at hone
        cases hone
  obtain ⟨trace, htrace, -, hsources, -⟩ := hfinish Sample.inputs Sample.granting
    (List.cons_ne_nil _ _) hall fun _ _ => rfl
  exact ⟨start, hnew, trace, htrace, hsources⟩

end KvCrucible

/-
KvCrucible/Normalizer.lean

Source normalization (`EnvelopeNormalizer` in `state.rs`): every physical
envelope is fingerprinted once, every stream contract is registered once,
and both are bound to one session.

A session is an identity with a status that only its normalizer changes.
`Arc::ptr_eq` on markers is equality of `SessionId`; the shared status is
passed to whoever loads it.  What `prepare_inner` establishes about the
envelopes it returns (`PreparedEnvelope` has no other constructor) is kept in
the fields of the structure: the fingerprint, the byte count and the first
clear are those of the mutations.
-/
import KvCrucible.Cache
import KvCrucible.Fingerprint

namespace KvCrucible

open Basis Std

/-- `BaselineAuthority`: the external trust decision about a baseline. -/
inductive BaselineAuthority where
  | trustDeclaredEmpty
  | treatAsUnknown
  deriving DecidableEq

/-- The identity of a `SessionMarker`. -/
abbrev SessionId := Nat

/-- The values of `SessionMarker::status`. -/
inductive SessionStatus where
  | open_
  | sealed
  | failed
  deriving DecidableEq

/-- `PreparedEnvelope`: one source envelope, normalized once. -/
structure PreparedEnvelope (canon : Canonical) where
  session : SessionId
  envelopeId : String
  streamId : String
  cursor : Nat
  origin : Origin
  mutations : List Mutation
  fingerprint : SemanticFingerprint
  canonicalBytes : Nat
  firstClear : Option Nat
  cursor_lt : cursor < 2 ^ 64
  fingerprint_eq : fingerprint = canon.fingerprint mutations
  canonicalBytes_eq : canonicalBytes = (canon.text mutations).length
  firstClear_eq : firstClear = mutations.findIdx? Mutation.isClear

/-- `PreparedEnvelope::has_clear`. -/
def PreparedEnvelope.hasClear {canon : Canonical} (e : PreparedEnvelope canon) : Bool :=
  e.firstClear.isSome

/-- `RegisteredStream`: the immutable contract of one stream.  Trusted
authority is only ever registered with an empty-baseline declaration. -/
structure RegisteredStream where
  streamId : String
  scope : CacheScope
  initialCursor : Nat
  baseline : Baseline
  authority : BaselineAuthority
  initialCursor_lt : initialCursor < 2 ^ 64
  authority_ok : authority = .trustDeclaredEmpty → baseline = .emptyAtEngineStart
  deriving DecidableEq

/-- `StreamBlueprint`: a session-bound recipe for fresh states. -/
structure StreamBlueprint where
  session : SessionId
  limits : Limits
  registration : RegisteredStream

/-- `SealedSession`: the proof that a session reached EOF. -/
structure SealedSession where
  session : SessionId
  limits : Limits

/-- `SealedSession::owns_source`. -/
def SealedSession.ownsSource {canon : Canonical} (sealedSession : SealedSession)
    (source : PreparedEnvelope canon) : Bool :=
  sealedSession.session = source.session

/-- `SealedSession::owns_blueprint`. -/
def SealedSession.ownsBlueprint (sealedSession : SealedSession) (blueprint : StreamBlueprint) :
    Bool :=
  sealedSession.session = blueprint.session

/-- `EnvelopeNormalizer`.  `scopes` holds the keys of the scope map; the
stream identity stored under a scope is never read. -/
structure EnvelopeNormalizer where
  session : SessionId
  status : SessionStatus
  limits : Limits
  fingerprintBytes : Nat
  streams : ExtTreeMap String RegisteredStream
  scopes : Finset CacheScope
  envelopeIds : Finset String
  envelopes : Nat
  identityBytes : Nat

/-- `validate_depth`. -/
def validateDepth (limits : Limits) : Except StateError Unit :=
  rejectIf (limits.maxDepth.toNat > maxJsonDepth)
    (.unsupportedDepthLimit limits.maxDepth.toNat maxJsonDepth)

/-- `map_fingerprint_error`. -/
def mapFingerprintError (error : FingerprintError) (limitedByTrace : Bool)
    (alreadyHashed : Nat) : StateError :=
  match error with
  | .canonicalization => .fingerprintCanonicalization
  | .counterOverflow => .counterOverflow
  | .resourceLimit maximum observed =>
      if limitedByTrace then
        .resourceLimit .fingerprintBytes (saturatingAdd alreadyHashed maximum)
          (saturatingAdd alreadyHashed observed)
      else .resourceLimit .canonicalMutationBytes maximum observed

namespace EnvelopeNormalizer

/-- `EnvelopeNormalizer::new`, in a session that is new to the process. -/
def new (session : SessionId) (limits : Limits) : Except StateError EnvelopeNormalizer := do
  validateDepth limits
  return {
    session := session
    status := .open_
    limits := limits
    fingerprintBytes := 0
    streams := ∅
    scopes := ∅
    envelopeIds := ∅
    envelopes := 0
    identityBytes := 0 }

variable (n : EnvelopeNormalizer)

/-- `fail`. -/
def fail : EnvelopeNormalizer := { n with status := .failed }

/-! ### Envelopes -/

/-- The hashing part of `prepare_inner`: the fingerprint under the smaller of
the line ceiling and the remaining trace budget. -/
def computeFingerprint (canon : Canonical) (envelope : EventEnvelope) :
    Except StateError Computed := do
  let remaining ← subOrOverflow n.limits.maxFingerprintBytesPerTrace.toNat n.fingerprintBytes
  let maximum := min n.limits.maxLineBytes.toNat remaining
  let limitedByTrace := decide (remaining < n.limits.maxLineBytes.toNat)
  match canon.envelope envelope maximum with
  | .ok computed => .ok computed
  | .error error => .error (mapFingerprintError error limitedByTrace n.fingerprintBytes)

theorem computeFingerprint_ok {canon : Canonical} {envelope : EventEnvelope}
    {computed : Computed} (h : n.computeFingerprint canon envelope = .ok computed) :
    computed.fingerprint = canon.fingerprint envelope.mutations ∧
      computed.canonicalBytes = (canon.text envelope.mutations).length := by
  obtain ⟨remaining, -, h⟩ := bind_eq_ok.mp h
  rcases e : canon.envelope envelope (min n.limits.maxLineBytes.toNat remaining)
    with error | c
  · simp [e] at h
  · obtain rfl : c = computed := by simpa [e] using h
    obtain ⟨hf, hc, -⟩ := Canonical.value_ok e
    exact ⟨hf, hc⟩

/-- `prepare_inner` at an envelope record, after record validation. -/
def prepareEnvelope (canon : Canonical) (envelope : EventEnvelope) :
    Except StateError (PreparedEnvelope canon × EnvelopeNormalizer) := do
  rejectIf (envelope.envelopeId ∈ n.envelopeIds) .duplicateEnvelopeRegistration
  let envelopes ← addOrOverflow n.envelopes 1
  rejectIf (envelopes > n.limits.maxEnvelopesPerTrace.toNat)
    (.resourceLimit .sessionEnvelopes n.limits.maxEnvelopesPerTrace.toNat envelopes)
  let length ← usizeToU64 (len envelope.envelopeId)
  let identityBytes ← addOrOverflow n.identityBytes length
  rejectIf (identityBytes > n.limits.maxIdentityBytesPerTrace.toNat)
    (.resourceLimit .sessionIdentityBytes n.limits.maxIdentityBytesPerTrace.toNat identityBytes)
  match hc : n.computeFingerprint canon envelope with
  | .error error => .error error
  | .ok computed => do
      let fingerprintBytes ← addOrOverflow n.fingerprintBytes computed.canonicalBytes
      rejectIf (fingerprintBytes > n.limits.maxFingerprintBytesPerTrace.toNat)
        (.resourceLimit .fingerprintBytes n.limits.maxFingerprintBytesPerTrace.toNat
          fingerprintBytes)
      return ({
        session := n.session
        envelopeId := envelope.envelopeId
        streamId := envelope.streamId
        cursor := envelope.cursor.get.toNat
        origin := envelope.origin
        mutations := envelope.mutations
        fingerprint := computed.fingerprint
        canonicalBytes := computed.canonicalBytes
        firstClear := envelope.mutations.findIdx? Mutation.isClear
        cursor_lt := envelope.cursor.get.toNat_lt
        fingerprint_eq := (n.computeFingerprint_ok hc).1
        canonicalBytes_eq := (n.computeFingerprint_ok hc).2
        firstClear_eq := rfl },
        { n with
          fingerprintBytes := fingerprintBytes
          envelopes := envelopes
          identityBytes := identityBytes
          envelopeIds := insert envelope.envelopeId n.envelopeIds })

/-- `prepare_inner`. -/
def prepareInner (canon : Canonical) (record : ValidatedRecord) :
    Except StateError (PreparedEnvelope canon × EnvelopeNormalizer) :=
  match record.asRecord.validate n.limits with
  | .error error => .error (.recordValidation error)
  | .ok () =>
      match record.asRecord with
      | .envelope envelope => n.prepareEnvelope canon envelope
      | _ => .error .wrongRecordKind

/-- `prepare`. -/
def prepare (canon : Canonical) (record : ValidatedRecord) :
    Except StateError (PreparedEnvelope canon) × EnvelopeNormalizer :=
  if n.status ≠ .open_ then (.error .normalizerFailed, n)
  else
    match n.prepareInner canon record with
    | .ok (source, n) => (.ok source, n)
    | .error error => (.error error, n.fail)

/-! ### Streams -/

/-- `bind_stream_inner`: a repeated identical registration returns the
registered contract again. -/
def bindStreamInner (registration : RegisteredStream) :
    Except StateError (RegisteredStream × EnvelopeNormalizer) :=
  match n.streams[registration.streamId]? with
  | some registered =>
      if registered = registration then .ok (registered, n)
      else .error .conflictingStreamRegistration
  | none => do
      rejectIf (registration.scope ∈ n.scopes) .duplicateStreamScope
      let streams ← usizeToU64 n.streams.size
      let observedStreams ← addOrOverflow streams 1
      rejectIf (observedStreams > n.limits.maxStreamsPerTrace.toNat)
        (.resourceLimit .sessionStreams n.limits.maxStreamsPerTrace.toNat observedStreams)
      let idBytes ← usizeToU64 (len registration.streamId)
      let scopeBytes ← registration.scope.identityBytes
      let addedIdentityBytes ← addOrOverflow idBytes scopeBytes
      let observedIdentityBytes ← addOrOverflow n.identityBytes addedIdentityBytes
      rejectIf (observedIdentityBytes > n.limits.maxIdentityBytesPerTrace.toNat)
        (.resourceLimit .sessionIdentityBytes n.limits.maxIdentityBytesPerTrace.toNat
          observedIdentityBytes)
      return (registration,
        { n with
          streams := n.streams.insert registration.streamId registration
          scopes := insert registration.scope n.scopes
          identityBytes := observedIdentityBytes })

/-- `bind_stream`. -/
def bindStream (registration : RegisteredStream) :
    Except StateError RegisteredStream × EnvelopeNormalizer :=
  match n.bindStreamInner registration with
  | .ok (registered, n) => (.ok registered, n)
  | .error error => (.error error, n.fail)

/-- The contract `bind_stream_inner` registers for a declaration whose
authority was checked. -/
def registrationOf (stream : StreamDeclaration) (authority : BaselineAuthority)
    (h : authority = .trustDeclaredEmpty → stream.baseline = .emptyAtEngineStart) :
    RegisteredStream where
  streamId := stream.streamId
  scope := CacheScope.ofStream stream
  initialCursor := stream.initialCursor.get.toNat
  baseline := stream.baseline
  authority := authority
  initialCursor_lt := stream.initialCursor.get.toNat_lt
  authority_ok := h

/-- `register_stream` at a stream record, after record validation.  A
mismatched authority does not fail the session. -/
def registerDeclaration (stream : StreamDeclaration) (authority : BaselineAuthority) :
    Except StateError StreamBlueprint × EnvelopeNormalizer :=
  if h : authority = .trustDeclaredEmpty → stream.baseline = .emptyAtEngineStart then
    match n.bindStream (registrationOf stream authority h) with
    | (.ok registration, n) =>
        (.ok { session := n.session, limits := n.limits, registration := registration }, n)
    | (.error error, n) => (.error error, n)
  else (.error .baselineAuthorityMismatch, n)

/-- `register_stream`. -/
def registerStream (declaration : ValidatedRecord) (authority : BaselineAuthority) :
    Except StateError StreamBlueprint × EnvelopeNormalizer :=
  if n.status ≠ .open_ then (.error .normalizerFailed, n)
  else
    match validateDepth n.limits with
    | .error error => (.error error, n)
    | .ok () =>
        match declaration.asRecord.validate n.limits with
        | .error error => (.error (.recordValidation error), n.fail)
        | .ok () =>
            match declaration.asRecord with
            | .stream stream => n.registerDeclaration stream authority
            | _ => (.error .wrongRecordKind, n.fail)

/-! ### Sealing -/

/-- `seal`. -/
def seal_ : Except StateError SealedSession :=
  if n.status = .open_ then .ok { session := n.session, limits := n.limits }
  else .error .normalizerFailed

end EnvelopeNormalizer

/-! ### A sample stream -/

namespace Sample

/-- The sample envelope as `prepare` normalizes it. -/
def source (envelopeId : String) (cursor : UInt64) (mutations : List Mutation) :
    PreparedEnvelope canonical where
  session := 0
  envelopeId := envelopeId
  streamId := "stream"
  cursor := cursor.toNat
  origin := .live
  mutations := mutations
  fingerprint := canonical.fingerprint mutations
  canonicalBytes := (canonical.text mutations).length
  firstClear := mutations.findIdx? Mutation.isClear
  cursor_lt := cursor.toNat_lt
  fingerprint_eq := rfl
  canonicalBytes_eq := rfl
  firstClear_eq := rfl

/-- The blueprint of the sample stream, with a trusted baseline. -/
def blueprint (limits : Limits) : StreamBlueprint where
  session := 0
  limits := limits
  registration :=
    EnvelopeNormalizer.registrationOf stream .trustDeclaredEmpty fun _ => rfl

end Sample

end KvCrucible

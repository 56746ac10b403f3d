/-
KvCrucible/SessionBudgets.lean

Session budgets along any sequence of calls.

A session is charged for two things: the envelopes it has prepared, as pairs of
identity and canonical bytes, and the set of stream contracts it has
registered.  `SessionBudget` says when such a pair is admissible at all, and
`Books` that the counters and indexes of a normalizer are those of the pair.
A call that succeeds keeps the books for one more charge, with a repeated
registration charged once; a call that fails closes the session, unless it only
refused the authority of a declaration.
-/
import KvCrucible.Agreement

namespace KvCrucible

open Basis Std

variable {canon : Canonical}

/-! ### Calls -/

/-- A call on an open normalizer. -/
inductive SessionCall where
  | prepare (record : ValidatedRecord)
  | registerStream (declaration : ValidatedRecord) (authority : BaselineAuthority)

/-- What a call returns. -/
inductive SessionReturn (canon : Canonical) where
  | prepared (source : PreparedEnvelope canon)
  | registered (blueprint : StreamBlueprint)
  | failed (error : StateError)

/-- The result of `prepare`. -/
def SessionReturn.ofPrepare : Except StateError (PreparedEnvelope canon) → SessionReturn canon
  | .ok source => .prepared source
  | .error error => .failed error

/-- The result of `register_stream`. -/
def SessionReturn.ofRegister : Except StateError StreamBlueprint → SessionReturn canon
  | .ok blueprint => .registered blueprint
  | .error error => .failed error

/-- One call. -/
def EnvelopeNormalizer.call (canon : Canonical) (n : EnvelopeNormalizer) :
    SessionCall → SessionReturn canon × EnvelopeNormalizer
  | .prepare record => (.ofPrepare (n.prepare canon record).1, (n.prepare canon record).2)
  | .registerStream declaration authority =>
      (.ofRegister (n.registerStream declaration authority).1,
        (n.registerStream declaration authority).2)

/-- A sequence of calls, with what they return. -/
def EnvelopeNormalizer.runCalls (canon : Canonical) (n : EnvelopeNormalizer) :
    List SessionCall → List (SessionReturn canon) × EnvelopeNormalizer
  | [] => ([], n)
  | call :: calls =>
      ((n.call canon call).1 :: ((n.call canon call).2.runCalls canon calls).1,
        ((n.call canon call).2.runCalls canon calls).2)

/-- What a prepared envelope is charged: its identity and its canonical
bytes. -/
def PreparedEnvelope.charge (source : PreparedEnvelope canon) : String × Nat :=
  (source.envelopeId, source.canonicalBytes)

/-- The envelope a call has prepared. -/
def SessionReturn.charge? : SessionReturn canon → Option (String × Nat)
  | .prepared source => some source.charge
  | _ => none

/-- The contract a call has registered, for the first time or again. -/
def SessionReturn.contract? : SessionReturn canon → Option RegisteredStream
  | .registered blueprint => some blueprint.registration
  | _ => none

/-- The envelopes prepared by a sequence of calls. -/
def chargesOf (returns : List (SessionReturn canon)) : List (String × Nat) :=
  returns.filterMap SessionReturn.charge?

/-- The contracts registered by a sequence of calls, each once. -/
def contractsOf (returns : List (SessionReturn canon)) : Finset RegisteredStream :=
  (returns.filterMap SessionReturn.contract?).toFinset

/-! ### Budgets -/

/-- The identity bytes of a scope, without overflow checks. -/
def CacheScope.size (scope : CacheScope) : Nat :=
  [len scope.engine, len scope.engineVersion, len scope.engineInstance, len scope.publisher,
    len scope.epoch].sum

/-- The identity bytes of a contract: its name and its scope. -/
def RegisteredStream.size (contract : RegisteredStream) : Nat :=
  len contract.streamId + contract.scope.size

/-- The identity bytes of a session. -/
def identityTotal (envelopes : List (String × Nat)) (contracts : Finset RegisteredStream) : Nat :=
  ∑ contract ∈ contracts, contract.size + (envelopes.map fun charge => len charge.1).sum

/-- The hashed bytes of a session. -/
def fingerprintTotal (envelopes : List (String × Nat)) : Nat := (envelopes.map Prod.snd).sum

/-- What a session may hold: distinct envelopes, one contract for each stream
and for each scope, and every total within its limit. -/
structure SessionBudget (limits : Limits) (envelopes : List (String × Nat))
    (contracts : Finset RegisteredStream) : Prop where
  envelopeIds : (envelopes.map Prod.fst).Nodup
  streamIds : Set.InjOn RegisteredStream.streamId contracts
  scopes : Set.InjOn RegisteredStream.scope contracts
  envelopes_le : envelopes.length ≤ limits.maxEnvelopesPerTrace.toNat
  streams_le : contracts.card ≤ limits.maxStreamsPerTrace.toNat
  identity_le : identityTotal envelopes contracts ≤ limits.maxIdentityBytesPerTrace.toNat
  fingerprint_le : fingerprintTotal envelopes ≤ limits.maxFingerprintBytesPerTrace.toNat

namespace EnvelopeNormalizer

/-- A normalizer that keeps the books of its envelopes and contracts. -/
structure Books (limits : Limits) (envelopes : List (String × Nat))
    (contracts : Finset RegisteredStream) (n : EnvelopeNormalizer) : Prop where
  budget : SessionBudget limits envelopes contracts
  depth : limits.maxDepth.toNat ≤ maxJsonDepth
  limits_eq : n.limits = limits
  fingerprintBytes : n.fingerprintBytes = fingerprintTotal envelopes
  envelopes_eq : n.envelopes = envelopes.length
  envelopeIds : n.envelopeIds = (envelopes.map Prod.fst).toFinset
  streams : ∀ id contract, n.streams[id]? = some contract ↔
    contract ∈ contracts ∧ contract.streamId = id
  streams_size : n.streams.size = contracts.card
  scopes : n.scopes = contracts.image RegisteredStream.scope
  identityBytes : n.identityBytes = identityTotal envelopes contracts

end EnvelopeNormalizer

theorem foldlM_lengths_ok {lengths : List Nat} {total bytes : Nat}
    (h : (lengths.foldlM (fun total length => do
      let length ← usizeToU64 length
      addOrOverflow total length) total : Except StateError Nat) = .ok bytes) :
    bytes = total + lengths.sum := by
  induction lengths generalizing total with
  | nil => exact (Except.ok.inj h).symm
  | cons length lengths ih =>
      rw [List.foldlM_cons] at h
      obtain ⟨next, hnext, h⟩ := bind_eq_ok.mp h
      obtain ⟨length', hlength, hadd⟩ := bind_eq_ok.mp hnext
      obtain ⟨rfl, -⟩ := usizeToU64_eq_ok.mp hlength
      obtain ⟨rfl, -⟩ := addOrOverflow_eq_ok.mp hadd
      rw [ih h, List.sum_cons, Nat.add_assoc]

theorem CacheScope.identityBytes_ok {scope : CacheScope} {bytes : Nat}
    (h : scope.identityBytes = .ok bytes) : bytes = scope.size := by
  have hsum := foldlM_lengths_ok h
  rwa [Nat.zero_add] at hsum

/-! ### Envelopes -/

namespace EnvelopeNormalizer

variable {limits : Limits} {envelopes : List (String × Nat)} {contracts : Finset RegisteredStream}
  {n n' : EnvelopeNormalizer}

/-- A prepared envelope is new, its totals are within their limits, and nothing
else about the normalizer changes. -/
theorem prepareEnvelope_charges {envelope : EventEnvelope}
    {source : PreparedEnvelope canon} (h : n.prepareEnvelope canon envelope = .ok (source, n')) :
    source.charge = (envelope.envelopeId, (canon.text envelope.mutations).length) ∧
      envelope.envelopeId ∉ n.envelopeIds ∧
      n.envelopes + 1 ≤ n.limits.maxEnvelopesPerTrace.toNat ∧
      n.identityBytes + len envelope.envelopeId ≤ n.limits.maxIdentityBytesPerTrace.toNat ∧
      n.fingerprintBytes + source.canonicalBytes ≤ n.limits.maxFingerprintBytesPerTrace.toNat ∧
      n' = n.prepared envelope (n.fingerprintBytes + source.canonicalBytes) := by
  obtain ⟨_, hid, h⟩ := bind_eq_ok.mp h
  obtain ⟨count, hcount, h⟩ := bind_eq_ok.mp h
  obtain ⟨_, hcountLe, h⟩ := bind_eq_ok.mp h
  obtain ⟨length, hlength, h⟩ := bind_eq_ok.mp h
  obtain ⟨bytes, hbytes, h⟩ := bind_eq_ok.mp h
  obtain ⟨_, hbytesLe, h⟩ := bind_eq_ok.mp h
  obtain ⟨rfl, -⟩ := addOrOverflow_eq_ok.mp hcount
  obtain ⟨rfl, -⟩ := usizeToU64_eq_ok.mp hlength
  obtain ⟨rfl, -⟩ := addOrOverflow_eq_ok.mp hbytes
  split at h
  next => cases h
  next computed hcomputed =>
    obtain ⟨hashed, hhashed, h⟩ := bind_eq_ok.mp h
    obtain ⟨_, hhashedLe, h⟩ := bind_eq_ok.mp h
    obtain ⟨rfl, rfl⟩ := Prod.mk.inj (pure_eq_ok.mp h)
    obtain ⟨rfl, -⟩ := addOrOverflow_eq_ok.mp hhashed
    refine ⟨?_, rejectIf_eq_ok.mp hid, Nat.not_lt.mp (rejectIf_eq_ok.mp hcountLe),
      Nat.not_lt.mp (rejectIf_eq_ok.mp hbytesLe), Nat.not_lt.mp (rejectIf_eq_ok.mp hhashedLe), rfl⟩
    exact congrArg (Prod.mk envelope.envelopeId) (n.computeFingerprint_ok hcomputed).2

/-- One more envelope in the books. -/
theorem Books.prepared (h : Books limits envelopes contracts n) {envelope : EventEnvelope}
    {source : PreparedEnvelope canon} (hok : n.prepareEnvelope canon envelope = .ok (source, n')) :
    Books limits (envelopes ++ [source.charge]) contracts n' := by
  obtain ⟨hcharge, hid, hcount, hbytes, hhashed, rfl⟩ := prepareEnvelope_charges hok
  have hname : source.envelopeId = envelope.envelopeId := congrArg Prod.fst hcharge
  rw [h.envelopeIds, List.mem_toFinset] at hid
  rw [h.limits_eq] at hcount hbytes hhashed
  have hidentity : identityTotal (envelopes ++ [source.charge]) contracts =
      n.identityBytes + len envelope.envelopeId := by
    rw [h.identityBytes, identityTotal, identityTotal, List.map_append, List.sum_append,
      List.map_singleton, List.sum_singleton, Nat.add_assoc, PreparedEnvelope.charge, hname]
  have hfingerprint : fingerprintTotal (envelopes ++ [source.charge]) =
      n.fingerprintBytes + source.canonicalBytes := by
    rw [h.fingerprintBytes, fingerprintTotal, fingerprintTotal, List.map_append, List.sum_append]
    rfl
  refine ⟨⟨?_, h.budget.streamIds, h.budget.scopes, ?_, h.budget.streams_le, ?_, ?_⟩, h.depth,
    h.limits_eq,
    hfingerprint.symm, ?_, ?_, h.streams, h.streams_size, h.scopes, hidentity.symm⟩
  · rw [List.map_append, List.map_singleton, PreparedEnvelope.charge, hname]
    exact List.Nodup.append h.budget.envelopeIds (List.nodup_singleton _)
      (List.disjoint_singleton.mpr hid)
  · rw [List.length_append, List.length_singleton, ← h.envelopes_eq]
    exact hcount
  · rw [hidentity]
    exact hbytes
  · rw [hfingerprint]
    exact hhashed
  · show n.envelopes + 1 = _
    rw [List.length_append, List.length_singleton, h.envelopes_eq]
  · show insert envelope.envelopeId n.envelopeIds = _
    rw [h.envelopeIds, List.map_append, List.toFinset_append, List.map_singleton,
      PreparedEnvelope.charge, hname]
    ext id
    simp

/-! ### Streams -/

/-- A contract that is registered for the first time: its stream and its scope
are new, and its totals are within their limits. -/
theorem bindStreamInner_charges {registration registered : RegisteredStream}
    (h : n.bindStreamInner registration = .ok (registered, n')) :
    registered = registration ∧
      (n.streams[registration.streamId]? = some registration ∧ n' = n ∨
        n.streams[registration.streamId]? = none ∧ registration.scope ∉ n.scopes ∧
        n.streams.size + 1 ≤ n.limits.maxStreamsPerTrace.toNat ∧
        n.identityBytes + registration.size ≤ n.limits.maxIdentityBytesPerTrace.toNat ∧
        n' = n.bound registration (n.identityBytes + registration.size)) := by
  unfold bindStreamInner at h
  split at h
  next known hknown =>
    by_cases hsame : known = registration
    · rw [if_pos hsame] at h
      obtain ⟨rfl, rfl⟩ := Prod.mk.inj (Except.ok.inj h)
      subst hsame
      exact ⟨rfl, .inl ⟨hknown, rfl⟩⟩
    · rw [if_neg hsame] at h
      cases h
  next hnone =>
    obtain ⟨_, hscope, h⟩ := bind_eq_ok.mp h
    obtain ⟨count, hcount, h⟩ := bind_eq_ok.mp h
    obtain ⟨observed, hobserved, h⟩ := bind_eq_ok.mp h
    obtain ⟨_, hcountLe, h⟩ := bind_eq_ok.mp h
    obtain ⟨idBytes, hidBytes, h⟩ := bind_eq_ok.mp h
    obtain ⟨scopeBytes, hscopeBytes, h⟩ := bind_eq_ok.mp h
    obtain ⟨added, hadded, h⟩ := bind_eq_ok.mp h
    obtain ⟨total, htotal, h⟩ := bind_eq_ok.mp h
    obtain ⟨_, htotalLe, h⟩ := bind_eq_ok.mp h
    obtain ⟨rfl, -⟩ := usizeToU64_eq_ok.mp hcount
    obtain ⟨rfl, -⟩ := addOrOverflow_eq_ok.mp hobserved
    obtain ⟨rfl, -⟩ := usizeToU64_eq_ok.mp hidBytes
    obtain rfl := CacheScope.identityBytes_ok hscopeBytes
    obtain ⟨rfl, -⟩ := addOrOverflow_eq_ok.mp hadded
    obtain ⟨rfl, -⟩ := addOrOverflow_eq_ok.mp htotal
    obtain ⟨rfl, rfl⟩ := Prod.mk.inj (pure_eq_ok.mp h)
    exact ⟨rfl, .inr ⟨hnone, rejectIf_eq_ok.mp hscope, Nat.not_lt.mp (rejectIf_eq_ok.mp hcountLe),
      Nat.not_lt.mp (rejectIf_eq_ok.mp htotalLe), rfl⟩⟩

/-- One more contract in the books, unless it is there already. -/
theorem Books.bound (h : Books limits envelopes contracts n)
    {registration registered : RegisteredStream}
    (hok : n.bindStreamInner registration = .ok (registered, n')) :
    registered = registration ∧ Books limits envelopes (insert registration contracts) n' := by
  obtain ⟨rfl, ⟨hknown, rfl⟩ | ⟨hnone, hscope, hcount, hbytes, rfl⟩⟩ := bindStreamInner_charges hok
  · have hmem : registered ∈ contracts := ((h.streams _ _).mp hknown).1
    rw [Finset.insert_eq_of_mem hmem]
    exact ⟨rfl, h⟩
  refine ⟨rfl, ?_⟩
  -- No contract of the books has this stream or this scope.
  have hstream : ∀ contract ∈ contracts, contract.streamId ≠ registered.streamId := by
    intro contract hcontract hname
    have hsome := (h.streams registered.streamId contract).mpr ⟨hcontract, hname⟩
    rw [hnone] at hsome
    cases hsome
  have hscope : ∀ contract ∈ contracts, contract.scope ≠ registered.scope := by
    intro contract hcontract heq
    rw [h.scopes] at hscope
    exact hscope (Finset.mem_image.mpr ⟨contract, hcontract, heq⟩)
  have hfresh : registered ∉ contracts := fun hmem => hstream registered hmem rfl
  have hcard : (insert registered contracts).card = contracts.card + 1 :=
    Finset.card_insert_of_notMem hfresh
  have hidentity : identityTotal envelopes (insert registered contracts) =
      n.identityBytes + registered.size := by
    rw [h.identityBytes, identityTotal, identityTotal, Finset.sum_insert hfresh]
    omega
  rw [h.limits_eq] at hcount hbytes
  rw [h.streams_size] at hcount
  refine ⟨⟨h.budget.envelopeIds, ?_, ?_, h.budget.envelopes_le, ?_, ?_, h.budget.fingerprint_le⟩,
    h.depth, h.limits_eq, h.fingerprintBytes, h.envelopes_eq, h.envelopeIds, ?_, ?_, ?_,
    hidentity.symm⟩
  · rw [Finset.coe_insert, Set.injOn_insert hfresh]
    refine ⟨h.budget.streamIds, ?_⟩
    rintro ⟨contract, hcontract, hname⟩
    exact hstream contract hcontract hname
  · rw [Finset.coe_insert, Set.injOn_insert hfresh]
    refine ⟨h.budget.scopes, ?_⟩
    rintro ⟨contract, hcontract, heq⟩
    exact hscope contract hcontract heq
  · rw [hcard]
    exact hcount
  · rw [hidentity]
    exact hbytes
  · intro id contract
    show (n.streams.insert _ _)[id]? = _ ↔ _
    rw [ExtTreeMap.getElem?_insert, Finset.mem_insert]
    simp only [Std.compare_eq_iff_eq]
    by_cases hname : registered.streamId = id
    · rw [if_pos hname, Option.some.injEq]
      constructor
      · rintro rfl
        exact ⟨.inl rfl, hname⟩
      · rintro ⟨rfl | hmem, hid⟩
        · rfl
        · exact absurd (hid.trans hname.symm) (hstream contract hmem)
    · rw [if_neg hname, h.streams]
      constructor
      · rintro ⟨hmem, hid⟩
        exact ⟨.inr hmem, hid⟩
      · rintro ⟨rfl | hmem, hid⟩
        · exact absurd hid hname
        · exact ⟨hmem, hid⟩
  · show (n.streams.insert _ _).size = _
    rw [size_insert_of_none hnone, h.streams_size, hcard]
  · show insert registered.scope n.scopes = _
    rw [h.scopes, Finset.image_insert]

/-! ### One call -/

/-- Whether a declaration may be registered with an authority. -/
abbrev AuthorityOk (stream : StreamDeclaration) (authority : BaselineAuthority) : Prop :=
  authority = .trustDeclaredEmpty → stream.baseline = .emptyAtEngineStart

/-- A call that prepares an envelope charges it. -/
theorem Books.prepare (h : Books limits envelopes contracts n) (hopen : n.status = .open_)
    {record : ValidatedRecord} {source : PreparedEnvelope canon}
    (hok : (n.prepare canon record).1 = .ok source) :
    (∃ envelope, record.asRecord = .envelope envelope ∧
      source.charge = (envelope.envelopeId, (canon.text envelope.mutations).length)) ∧
    (n.prepare canon record).2.status = .open_ ∧
    Books limits (envelopes ++ [source.charge]) contracts (n.prepare canon record).2 := by
  unfold EnvelopeNormalizer.prepare at hok ⊢
  rw [if_neg (not_not_intro hopen)] at hok ⊢
  cases hinner : n.prepareInner canon record with
  | error error =>
      rw [hinner] at hok
      cases hok
  | ok result =>
      obtain ⟨source', n'⟩ := result
      rw [hinner] at hok
      obtain rfl := Except.ok.inj hok
      unfold prepareInner at hinner
      split at hinner
      next => cases hinner
      next =>
        split at hinner
        next envelope hrecord =>
          obtain ⟨hcharge, -, -, -, -, rfl⟩ := prepareEnvelope_charges hinner
          exact ⟨⟨envelope, hrecord, hcharge⟩, hopen, h.prepared hinner⟩
        next => cases hinner

/-- A call that fails to prepare an envelope closes the session. -/
theorem prepare_failed (hopen : n.status = .open_) {record : ValidatedRecord} {error : StateError}
    (herror : (n.prepare canon record).1 = .error error) :
    (n.prepare canon record).2.status = .failed := by
  unfold EnvelopeNormalizer.prepare at herror ⊢
  rw [if_neg (not_not_intro hopen)] at herror ⊢
  cases hinner : n.prepareInner canon record with
  | error failure => rfl
  | ok result =>
      rw [hinner] at herror
      cases herror

/-- How a call to register a stream ends in an open session: it closes the
session, or refuses the authority, or binds the contract of the declaration. -/
theorem registerStream_cases (hopen : n.status = .open_)
    (hdepth : n.limits.maxDepth.toNat ≤ maxJsonDepth) (record : ValidatedRecord)
    (authority : BaselineAuthority) :
    (∃ error, n.registerStream record authority = (.error error, n.fail)) ∨
    n.registerStream record authority = (.error .baselineAuthorityMismatch, n) ∨
    ∃ stream, ∃ hauthority : AuthorityOk stream authority, ∃ registered n',
      record.asRecord = .stream stream ∧
      n.bindStreamInner (registrationOf stream authority hauthority) = .ok (registered, n') ∧
      n.registerStream record authority = (.ok ⟨n'.session, n'.limits, registered⟩, n') := by
  have hpass : validateDepth n.limits = .ok () := rejectIf_neg (Nat.not_lt.mpr hdepth)
  unfold EnvelopeNormalizer.registerStream
  rw [if_neg (not_not_intro hopen), hpass]
  dsimp only
  split
  next error _ => exact .inl ⟨_, rfl⟩
  next =>
    split
    next stream hrecord =>
      unfold registerDeclaration
      by_cases hauthority : AuthorityOk stream authority
      · rw [dif_pos hauthority]
        unfold bindStream
        cases hinner : n.bindStreamInner (registrationOf stream authority hauthority) with
        | error error => exact .inl ⟨error, rfl⟩
        | ok result =>
            obtain ⟨registered, n'⟩ := result
            exact .inr (.inr ⟨stream, hauthority, registered, n', hrecord, hinner, rfl⟩)
      · rw [dif_neg hauthority]
        exact .inr (.inl rfl)
    next => exact .inl ⟨_, rfl⟩

/-- A call that registers a stream charges its contract, if it is new. -/
theorem Books.registerStream (h : Books limits envelopes contracts n) (hopen : n.status = .open_)
    {record : ValidatedRecord} {authority : BaselineAuthority} {blueprint : StreamBlueprint}
    (hok : (n.registerStream record authority).1 = .ok blueprint) :
    (∃ stream, ∃ hauthority : AuthorityOk stream authority, record.asRecord = .stream stream ∧
      blueprint.registration = registrationOf stream authority hauthority) ∧
    (n.registerStream record authority).2.status = .open_ ∧
    Books limits envelopes (insert blueprint.registration contracts)
      (n.registerStream record authority).2 := by
  have hdepth : n.limits.maxDepth.toNat ≤ maxJsonDepth := by
    rw [h.limits_eq]
    exact h.depth
  rcases registerStream_cases hopen hdepth record authority with ⟨error, heq⟩ | heq |
    ⟨stream, hauthority, registered, n', hrecord, hinner, heq⟩
  · rw [heq] at hok
    cases hok
  · rw [heq] at hok
    cases hok
  · rw [heq] at hok ⊢
    obtain rfl := Except.ok.inj hok
    obtain ⟨rfl, hbooks⟩ := h.bound hinner
    refine ⟨⟨stream, hauthority, hrecord, rfl⟩, ?_, hbooks⟩
    obtain ⟨-, ⟨-, rfl⟩ | ⟨-, -, -, -, rfl⟩⟩ := bindStreamInner_charges hinner
    · exact hopen
    · exact hopen

/-- A call that fails to register a stream closes the session, unless the
authority does not match the baseline; then it changes nothing. -/
theorem registerStream_failed (hopen : n.status = .open_)
    (hdepth : n.limits.maxDepth.toNat ≤ maxJsonDepth) {record : ValidatedRecord}
    {authority : BaselineAuthority} {error : StateError}
    (herror : (n.registerStream record authority).1 = .error error) :
    (n.registerStream record authority).2.status = .failed ∨
      error = .baselineAuthorityMismatch ∧ (n.registerStream record authority).2 = n := by
  rcases registerStream_cases hopen hdepth record authority with ⟨failure, heq⟩ | heq |
    ⟨stream, hauthority, registered, n', hrecord, hinner, heq⟩
  · rw [heq]
    exact .inl rfl
  · rw [heq] at herror ⊢
    exact .inr ⟨(Except.error.inj herror).symm, rfl⟩
  · rw [heq] at herror
    cases herror

/-- A closed session refuses every call and stays as it is. -/
theorem call_closed (hclosed : n.status ≠ .open_) (call : SessionCall) :
    n.call canon call = (.failed .normalizerFailed, n) := by
  cases call with
  | prepare record =>
      have hrefused : n.prepare canon record = (.error .normalizerFailed, n) := if_pos hclosed
      rw [EnvelopeNormalizer.call, hrefused]
      rfl
  | registerStream declaration authority =>
      have hrefused : n.registerStream declaration authority = (.error .normalizerFailed, n) :=
        if_pos hclosed
      rw [EnvelopeNormalizer.call, hrefused]
      rfl

/-- What one call of an open session does to the books. -/
theorem Books.call (h : Books limits envelopes contracts n) (hopen : n.status = .open_)
    (call : SessionCall) :
    (n.call canon call).2.status ≠ .open_ ∧
        (∃ error, (n.call canon call).1 = .failed error) ∨
      (n.call canon call).2.status = .open_ ∧
        (∀ error, (n.call canon call).1 = .failed error → error = .baselineAuthorityMismatch) ∧
        Books limits (envelopes ++ chargesOf [(n.call canon call).1])
          (contracts ∪ contractsOf [(n.call canon call).1]) (n.call canon call).2 := by
  have hdepth : n.limits.maxDepth.toNat ≤ maxJsonDepth := by
    rw [h.limits_eq]
    exact h.depth
  cases call with
  | prepare record =>
      rw [EnvelopeNormalizer.call]
      cases hresult : (n.prepare canon record).1 with
      | error error =>
          refine .inl ⟨?_, error, rfl⟩
          rw [prepare_failed hopen hresult]
          exact fun hstatus => SessionStatus.noConfusion hstatus
      | ok source =>
          obtain ⟨-, hstatus, hbooks⟩ := h.prepare hopen hresult
          refine .inr ⟨hstatus, fun error herror => (by cases herror), ?_⟩
          show Books limits (envelopes ++ [source.charge]) (contracts ∪ ∅) _
          rw [Finset.union_empty]
          exact hbooks
  | registerStream declaration authority =>
      rw [EnvelopeNormalizer.call]
      cases hresult : (n.registerStream declaration authority).1 with
      | error error =>
          rcases registerStream_failed hopen hdepth hresult with hstatus | ⟨rfl, hsame⟩
          · refine .inl ⟨?_, error, rfl⟩
            rw [hstatus]
            exact fun hstatus => SessionStatus.noConfusion hstatus
          · rw [hsame]
            refine .inr ⟨hopen, fun error herror => (SessionReturn.failed.inj herror).symm, ?_⟩
            show Books limits (envelopes ++ []) (contracts ∪ ∅) n
            rw [List.append_nil, Finset.union_empty]
            exact h
      | ok blueprint =>
          obtain ⟨-, hstatus, hbooks⟩ := h.registerStream hopen hresult
          refine .inr ⟨hstatus, fun error herror => (by cases herror), ?_⟩
          show Books limits (envelopes ++ []) (contracts ∪ {blueprint.registration}) _
          rw [List.append_nil, Finset.union_comm, ← Finset.insert_eq]
          exact hbooks

/-! ### Sequences of calls -/

/-- In a closed session every call of a sequence is refused. -/
theorem runCalls_closed (hclosed : n.status ≠ .open_) (calls : List SessionCall) :
    (∀ r ∈ (n.runCalls canon calls).1, r = .failed .normalizerFailed) ∧
      (n.runCalls canon calls).2 = n := by
  induction calls with
  | nil => exact ⟨List.forall_mem_nil _, rfl⟩
  | cons call calls ih =>
      rw [runCalls, call_closed hclosed]
      exact ⟨List.forall_mem_cons.mpr ⟨rfl, ih.1⟩, ih.2⟩

/-- As long as the session is open, the books are kept. -/
theorem Books.runCalls : ∀ {n : EnvelopeNormalizer} {envelopes : List (String × Nat)}
    {contracts : Finset RegisteredStream} (calls : List SessionCall),
    Books limits envelopes contracts n → n.status = .open_ →
      (n.runCalls canon calls).2.status = .open_ →
        Books limits (envelopes ++ chargesOf (n.runCalls canon calls).1)
          (contracts ∪ contractsOf (n.runCalls canon calls).1) (n.runCalls canon calls).2 := by
  intro n envelopes contracts calls
  induction calls generalizing n envelopes contracts with
  | nil =>
      intro h _ _
      show Books limits (envelopes ++ []) (contracts ∪ ∅) n
      rw [List.append_nil, Finset.union_empty]
      exact h
  | cons call calls ih =>
      intro h hopen hend
      rw [EnvelopeNormalizer.runCalls] at hend ⊢
      rcases h.call hopen call with ⟨hclosed, -⟩ | ⟨hstatus, -, hbooks⟩
      · rw [(runCalls_closed hclosed calls).2] at hend
        exact absurd hend hclosed
      · have hrest := ih hbooks hstatus hend
        have hcharges : ∀ (r : SessionReturn canon) (rs : List (SessionReturn canon)),
            chargesOf (r :: rs) = chargesOf [r] ++ chargesOf rs :=
          fun r rs => @List.filterMap_append _ _ [r] rs _
        have hcontracts : ∀ (r : SessionReturn canon) (rs : List (SessionReturn canon)),
            contractsOf (r :: rs) = contractsOf [r] ∪ contractsOf rs := by
          intro r rs
          rw [contractsOf, ← List.singleton_append, List.filterMap_append, List.toFinset_append]
          rfl
        rw [hcharges, hcontracts, ← List.append_assoc, ← Finset.union_assoc]
        exact hrest

/-- A new session has empty books. -/
theorem books_new {session : SessionId} (hnew : new session limits = .ok n) :
    Books limits [] ∅ n ∧ n.status = .open_ := by
  obtain ⟨_, hdepth, hnew⟩ := bind_eq_ok.mp hnew
  obtain rfl := pure_eq_ok.mp hnew
  refine ⟨⟨⟨List.nodup_nil, ?_, ?_, Nat.zero_le _, Nat.zero_le _, Nat.zero_le _, Nat.zero_le _⟩,
    Nat.not_lt.mp (rejectIf_eq_ok.mp hdepth), rfl, rfl, rfl, rfl, ?_, rfl, rfl, rfl⟩, rfl⟩
  · simp
  · simp
  · simp

/-- A failed call closes the session, unless it refused an authority. -/
theorem closed_of_failed (h : n.status = .open_ → Books limits envelopes contracts n)
    {call : SessionCall} {error : StateError} (hfailed : (n.call canon call).1 = .failed error)
    (herror : error ≠ .baselineAuthorityMismatch) : (n.call canon call).2.status ≠ .open_ := by
  by_cases hopen : n.status = .open_
  · rcases (h hopen).call hopen call with ⟨hclosed, -⟩ | ⟨-, honly, -⟩
    · exact hclosed
    · exact absurd (honly error hfailed) herror
  · rw [call_closed hopen]
    exact hopen

theorem seal_closed (h : n.status ≠ .open_) : n.seal_ = .error .normalizerFailed := if_neg h

/-- The books of a session after any sequence of calls.  While the session is
open they are exact, and a call whose charge is not admissible is refused; a
failure other than a refused authority is final; a sealed session had its books
in order. -/
theorem session_budgets_exact {session : SessionId} {n₀ : EnvelopeNormalizer}
    (hnew : new session limits = .ok n₀) (calls : List SessionCall)
    {returns : List (SessionReturn canon)} (hrun : n₀.runCalls canon calls = (returns, n)) :
    (n.status = .open_ →
      Books limits (chargesOf returns) (contractsOf returns) n ∧
      (∀ record envelope, record.asRecord = .envelope envelope →
        ¬ SessionBudget limits (chargesOf returns ++
            [(envelope.envelopeId, (canon.text envelope.mutations).length)]) (contractsOf returns) →
          ∃ error, (n.prepare canon record).1 = .error error) ∧
      (∀ record stream authority, ∀ hauthority : AuthorityOk stream authority,
        record.asRecord = .stream stream →
        ¬ SessionBudget limits (chargesOf returns)
            (insert (registrationOf stream authority hauthority) (contractsOf returns)) →
          ∃ error, (n.registerStream record authority).1 = .error error)) ∧
    (∀ call error later, (n.call canon call).1 = .failed error →
      error ≠ .baselineAuthorityMismatch →
        (∀ r ∈ ((n.call canon call).2.runCalls canon later).1, r = .failed .normalizerFailed) ∧
        ((n.call canon call).2.runCalls canon later).2.seal_ = .error .normalizerFailed) ∧
    ∀ sealedSession, n.seal_ = .ok sealedSession →
      Books limits (chargesOf returns) (contractsOf returns) n := by
  obtain ⟨hbooks, hstart⟩ := books_new hnew
  have hopen : n.status = .open_ → Books limits (chargesOf returns) (contractsOf returns) n := by
    intro hopen
    have hend : (n₀.runCalls canon calls).2.status = .open_ → _ := hbooks.runCalls calls hstart
    rw [hrun] at hend
    have hend := hend hopen
    rwa [List.nil_append, Finset.empty_union] at hend
  refine ⟨fun hstatus => ⟨hopen hstatus, ?_, ?_⟩, ?_, ?_⟩
  · intro record envelope hrecord hbudget
    cases hresult : (n.prepare canon record).1 with
    | error error => exact ⟨error, rfl⟩
    | ok source =>
        obtain ⟨⟨envelope', hrecord', hcharge⟩, -, hafter⟩ := (hopen hstatus).prepare hstatus hresult
        obtain rfl := Record.envelope.inj (hrecord.symm.trans hrecord')
        rw [hcharge] at hafter
        exact absurd hafter.budget hbudget
  · intro record stream authority hauthority hrecord hbudget
    cases hresult : (n.registerStream record authority).1 with
    | error error => exact ⟨error, rfl⟩
    | ok blueprint =>
        obtain ⟨⟨stream', _, hrecord', hregistration⟩, -, hafter⟩ :=
          (hopen hstatus).registerStream hstatus hresult
        obtain rfl := Record.stream.inj (hrecord.symm.trans hrecord')
        rw [hregistration] at hafter
        exact absurd hafter.budget hbudget
  · intro call error later hfailed herror
    have hclosed := closed_of_failed hopen hfailed herror
    have hlater : (∀ r ∈ ((n.call canon call).2.runCalls canon later).1, _) ∧ _ :=
      runCalls_closed hclosed later
    obtain ⟨hrefused, hsame⟩ := hlater
    refine ⟨hrefused, ?_⟩
    rw [hsame]
    exact seal_closed hclosed
  · intro sealedSession hseal
    by_cases hstatus : n.status = .open_
    · exact hopen hstatus
    · rw [seal_closed hstatus] at hseal
      cases hseal

end EnvelopeNormalizer

namespace Sample

theorem stream_validated : ∃ limits, (Record.stream stream).validate limits = .ok () :=
  ⟨forgetful, by decide +kernel⟩

theorem first_validated :
    ∃ limits, (Record.envelope (envelope "first" 0 [store 1])).validate limits = .ok () :=
  ⟨forgetful, by decide +kernel⟩

/-- A stream registered twice, and an envelope. -/
def sessionCalls : List SessionCall :=
  [.registerStream ⟨.stream stream, stream_validated⟩ .trustDeclaredEmpty,
    .registerStream ⟨.stream stream, stream_validated⟩ .trustDeclaredEmpty,
    .prepare ⟨.envelope (envelope "first" 0 [store 1]), first_validated⟩]

/-- The normalizer of a new session. -/
def normalizer : EnvelopeNormalizer where
  session := 0
  status := .open_
  limits := Limits.default
  fingerprintBytes := 0
  streams := ∅
  scopes := ∅
  envelopeIds := ∅
  envelopes := 0
  identityBytes := 0

end Sample

/-- The law at a stream that is registered twice: the session stays open, and
charges one contract. -/
theorem EnvelopeNormalizer.session_budgets_sample :
    (contractsOf (Sample.normalizer.runCalls Sample.canonical Sample.sessionCalls).1).card = 1 ∧
      Books Limits.default
        (chargesOf (Sample.normalizer.runCalls Sample.canonical Sample.sessionCalls).1)
        (contractsOf (Sample.normalizer.runCalls Sample.canonical Sample.sessionCalls).1)
        (Sample.normalizer.runCalls Sample.canonical Sample.sessionCalls).2 := by
  have hnew : new 0 Limits.default = .ok Sample.normalizer := rfl
  exact ⟨by decide +kernel,
    ((session_budgets_exact hnew Sample.sessionCalls Prod.mk.eta.symm).1 (by decide +kernel)).1⟩

end KvCrucible

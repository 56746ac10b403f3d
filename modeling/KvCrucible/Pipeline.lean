/-
KvCrucible/Pipeline.lean

What can go wrong when a schedule of a sealed trace is compared.

Everything an execution asks of its inputs was checked when the trace was
assembled: every source belongs to the session, names a declared stream and
does not undercut its first cursor, and every slice and index is within its
prefix.  `Serves` is what remains to be maintained while deliveries arrive: a
stream state whose keys and candidates stem from the trace.  One delivery
keeps it or runs into a cache ceiling (`Serves.admitInner`), and so does a
whole execution (`execute_total`).
-/
import KvCrucible.Agreement
import KvCrucible.Interference

namespace KvCrucible

open Basis Std CacheTransaction StreamState

variable {canon : Canonical}

/-! ### Keys that a fold can reach -/

theorem run_subset {mutation : Mutation} {held keys : Finset CacheKey} (hheld : held ⊆ keys)
    (hstored : ∀ key ∈ mutation.storedKeys, key ∈ keys) : mutation.run held ⊆ keys := by
  cases mutation with
  | storeRun run =>
      have hhashes : ∀ hash ∈ run.hashes, (⟨run.group, run.medium, hash⟩ : CacheKey) ∈ keys :=
        fun hash hhash => hstored _ (List.mem_map_of_mem hhash)
      show run.hashes.foldl _ held ⊆ keys
      exact List.foldlRecOn (motive := fun held => held ⊆ keys) run.hashes _ hheld
        fun held hheld hash hhash => Finset.insert_subset (hhashes hash hhash) hheld
  | remove hashes group medium metadata =>
      show hashes.foldl _ held ⊆ keys
      exact List.foldlRecOn (motive := fun held => held ⊆ keys) hashes _ hheld
        fun held hheld hash _ => (Finset.erase_subset _ _).trans hheld
  | clear metadata => exact Finset.empty_subset keys

/-- A fold of mutation lists holds no other keys than it started with or
stored. -/
theorem foldSources_subset {sources : List (PreparedEnvelope canon)} {held keys : Finset CacheKey}
    (hheld : held ⊆ keys)
    (hstored : storedKeys (sources.flatMap PreparedEnvelope.mutations) ⊆ keys) :
    StreamState.foldSources sources held ⊆ keys := by
  refine List.foldlRecOn (motive := fun held => held ⊆ keys) sources _ hheld
    fun held hheld source hsource => ?_
  refine List.foldlRecOn (motive := fun held => held ⊆ keys) source.mutations _ hheld
    fun held hheld mutation hmutation => run_subset hheld fun key hkey => ?_
  exact hstored (mem_storedKeys.mpr ⟨mutation, List.mem_flatMap_of_mem hsource hmutation, hkey⟩)

/-- Different sources of a trace ask for no more than the trace. -/
theorem FitsCounters.of_nodup {limits : Limits} {keys : Finset CacheKey}
    {sources sources' : List (PreparedEnvelope canon)}
    (h : FitsCounters limits keys (sources.flatMap PreparedEnvelope.mutations))
    (hnodup : (sources'.map PreparedEnvelope.cursor).Nodup) (hsub : sources' ⊆ sources) :
    FitsCounters limits keys (sources'.flatMap PreparedEnvelope.mutations) where
  stored := fun key hkey => by
    obtain ⟨mutation, hmutation, hkey⟩ := mem_storedKeys.mp hkey
    obtain ⟨source, hsource, hmutation⟩ := List.mem_flatMap.mp hmutation
    exact h.stored (mem_storedKeys.mpr
      ⟨mutation, List.mem_flatMap_of_mem (hsub hsource) hmutation, hkey⟩)
  holds := h.holds
  removes_lt := by
    have hremoves := h.removes_lt
    rw [removedHashes_flatMap] at hremoves ⊢
    obtain ⟨part, hperm, hpart⟩ := List.subperm_of_subset hnodup.of_map hsub
    rw [← (hperm.map _).sum_eq]
    exact Nat.lt_of_le_of_lt ((hpart.map _).sum_le_sum fun _ _ => Nat.zero_le _) hremoves

namespace StreamState

variable {s s' start : StreamState canon} {e : PreparedEnvelope canon} {limits : Limits}
  {keys : Finset CacheKey} {sources : List (PreparedEnvelope canon)}

/-- A delivery is disposed of, unless it reaches an application. -/
theorem Accepts.admitInner_total (ha : s.Accepts e) (hs : s.Invariant) :
    (∃ result, s.admitInner e = .ok result) ∨ ∃ barrier, Invariant.Reaches s e barrier := by
  obtain ⟨result, hresult⟩ := @handlePendingRedelivery_total canon s e hs
  rcases handlePendingRedelivery_ok hresult with ⟨rfl, hfresh⟩ | ⟨d, s', rfl, -⟩
  · rw [ha.admitFresh_eq hfresh, admitFresh]
    by_cases hpast : s.isPast e.cursor = true
    · exact .inl ⟨_, if_pos hpast⟩
    rw [if_neg hpast]
    have hnext : s.next ≤ e.cursor :=
      Nat.le_of_not_lt fun h => hpast ((isPast_iff ha.initialCursor).mpr h)
    by_cases hblocks : s.unavailableBlocks e = true
    · exact .inl ⟨_, if_pos hblocks⟩
    rw [if_neg hblocks]
    rw [Bool.not_eq_true] at hblocks
    by_cases heligible : s.eligibleBarrier e = true
    · exact .inr ⟨true, hfresh, hnext, hblocks, heligible, fun h => Bool.noConfusion h⟩
    rw [if_neg heligible]
    rw [Bool.not_eq_true] at heligible
    by_cases hfirst : (s.baselineUnknown && s.frontier.isNone) = true
    · refine .inr ⟨false, hfresh, hnext, hblocks, heligible, fun _ => .inr ?_⟩
      simpa using hfirst
    rw [if_neg hfirst, admitExpected, expectedCursor_of_le hnext]
    by_cases heq : e.cursor = s.next
    · exact .inr ⟨false, hfresh, hnext, hblocks, heligible, fun _ => .inl heq⟩
    · have hgt : e.cursor > s.next := Nat.lt_of_le_of_ne hnext (Ne.symm heq)
      obtain ⟨result, hbuffer⟩ := @buffer_total canon s e hnext
      refine .inl ⟨result, ?_⟩
      dsimp only
      rw [if_neg heq, if_pos hgt, hbuffer]
  · rw [ha.admitInner_eq, hresult]
    exact .inl ⟨_, rfl⟩

/-- A stream under way, with keys and candidates of the trace only. -/
structure Serves (limits : Limits) (keys : Finset CacheKey) (sources : List (PreparedEnvelope canon))
    (s start : StreamState canon) : Prop where
  invariant : s.Invariant
  same : start.SameStream s
  live : s.failed = false
  limits_eq : s.limits = limits
  keys : s.view.keys ⊆ keys
  candidates : ∀ (c : Nat) (source : PreparedEnvelope canon),
    s.pending[c]? = some (.candidate source) → source ∈ sources

/-- The candidates that an application drains are sources of the trace, at
other cursors than the delivery. -/
theorem Serves.fits (hs : s.Serves limits keys sources start)
    (hfits : FitsCounters limits keys (sources.flatMap PreparedEnvelope.mutations))
    (he : e ∈ sources) {supersedes : Bool} {drained : List (PreparedEnvelope canon)}
    (hdrained : s.Drained supersedes e.cursor drained) :
    FitsCounters limits keys (e.mutations ++ drained.flatMap PreparedEnvelope.mutations) := by
  have hconsecutive := hdrained.consecutive hs.invariant.toCore
  have hcursors : (e :: drained).map PreparedEnvelope.cursor =
      (List.range (drained.length + 1)).map (e.cursor + ·) := by
    apply List.ext_getElem?
    intro k
    cases k with
    | zero => simp
    | succ k =>
        by_cases hk : k < drained.length
        · have hcursor := hconsecutive k hk
          simp [hk]
          omega
        · simp [hk]
  have hnodup : ((e :: drained).map PreparedEnvelope.cursor).Nodup := by
    rw [hcursors]
    exact List.nodup_range.map fun _ _ h => Nat.add_left_cancel h
  have hsub : e :: drained ⊆ sources := by
    refine List.cons_subset.mpr ⟨he, fun source hsource => ?_⟩
    obtain ⟨k, hk, rfl⟩ := List.getElem_of_mem hsource
    exact hs.candidates _ _ (hdrained.pending k hk)
  exact hfits.of_nodup hnodup hsub

/-- A step keeps to the trace. -/
theorem Serves.step (hs : s.Serves limits keys sources start)
    (hstored : storedKeys (sources.flatMap PreparedEnvelope.mutations) ⊆ keys)
    (he : e ∈ sources) {d : Disposition} (hstep : s.Step e d s') :
    s'.Serves limits keys sources start := by
  have hsame := hstep.same
  refine
    { invariant := hs.invariant.step hstep
      same := hs.same.trans hsame
      live := hsame.failed.trans hs.live
      limits_eq := hsame.limits.trans hs.limits_eq
      keys := ?_
      candidates := fun c source hc => ?_ }
  · rcases hstep.quiet_or_folds with ⟨-, -, hquiet⟩ | ⟨_, drained, _, -, -, happ⟩
    · rw [hquiet.view]
      exact hs.keys
    · rw [(happ.view_ok hs.invariant.view).1]
      refine foldSources_subset hs.keys fun key hkey => ?_
      obtain ⟨mutation, hmutation, hkey⟩ := mem_storedKeys.mp hkey
      obtain ⟨source, hsource, hmutation⟩ := List.mem_flatMap.mp hmutation
      have hmem : source ∈ sources := by
        rcases List.mem_cons.mp hsource with rfl | hsource
        · exact he
        · obtain ⟨k, hk, rfl⟩ := List.getElem_of_mem hsource
          exact hs.candidates _ _ (happ.drained.pending k hk)
      exact hstored (mem_storedKeys.mpr ⟨mutation, List.mem_flatMap_of_mem hmem hmutation, hkey⟩)
  · rcases hstep.candidate_mem hc with rfl | hc
    · exact he
    · exact hs.candidates c source hc

/-- One delivery of the trace is disposed of or runs into a cache ceiling. -/
theorem Serves.admitInner (hs : s.Serves limits keys sources start)
    (hfits : FitsCounters limits keys (sources.flatMap PreparedEnvelope.mutations))
    (ha : s.Accepts e) (he : e ∈ sources) :
    (∃ d s', s.admitInner e = .ok (d, s') ∧ s'.Serves limits keys sources start) ∨
      ∃ error, s.admitInner e = .error (.error error) ∧ CacheExhausted limits error := by
  cases hinner : s.admitInner e with
  | ok result =>
      exact .inl ⟨_, _, rfl, hs.step hfits.stored he (admitInner_ok hinner).2⟩
  | error failure =>
      refine .inr ?_
      rcases ha.admitInner_total hs.invariant with ⟨result, hok⟩ | ⟨barrier, hreaches⟩
      · cases hok.symm.trans hinner
      · have hroom : e.cursor + (u64Max - e.cursor) = u64Max := by
          have hlt := e.cursor_lt
          unfold u64Max
          omega
        have hdrained := @drained_drainable canon s (s.supersedes e.cursor barrier) _ _ hroom
        have hdrainedFits := hs.fits hfits he hdrained
        rw [ha.applySource_eq hreaches] at hinner
        rw [← hs.limits_eq] at hdrainedFits ⊢
        obtain ⟨error, rfl, hexhausted⟩ := applySource_error hs.invariant
          (ha.hasClear_of_reaches hreaches) hdrained hs.keys hdrainedFits hinner
        exact ⟨error, rfl, hexhausted⟩

/-- A stream under way can be finalized in its session. -/
theorem Serves.finish (hs : s.Serves limits keys sources start) {sealedSession : SealedSession}
    (hsession : start.session = sealedSession.session) :
    ∃ summary, s.finish .sealed sealedSession = .ok summary := by
  have hlive : ¬ s.failed = true := by
    rw [hs.live]
    exact Bool.false_ne_true
  have hsession : ¬ s.session ≠ sealedSession.session :=
    not_not_intro (hs.same.session.trans hsession)
  exact ⟨_, bind_ok (rejectIf_neg hlive) (bind_ok (rejectIf_neg hsession)
    (bind_ok (rejectIf_neg fun h => h rfl) rfl))⟩

/-- A fresh state serves. -/
theorem serves_fromBlueprint (blueprint : StreamBlueprint) :
    (fromBlueprint blueprint : StreamState canon).Serves blueprint.limits keys sources
      (fromBlueprint blueprint) where
  invariant := invariant_fromBlueprint blueprint
  same := .refl _
  live := rfl
  limits_eq := rfl
  keys := Finset.empty_subset keys
  candidates := fun c source hc => by simp [fromBlueprint] at hc

end StreamState

/-! ### Executions -/

/-- A part of an execution has a result, or one of its streams ran into a
cache ceiling. -/
def Completes {α : Type*} (limits : Limits) (P : α → Prop) (x : Except ScenarioFailure α) : Prop :=
  (∃ a, x = .ok a ∧ P a) ∨
    ∃ mode stream error, x = .error (.error (.executionState mode stream error)) ∧
      CacheExhausted limits error

section Completes

variable {limits : Limits}

theorem Completes.ok {α : Type*} {P : α → Prop} {a : α} (h : P a) :
    Completes limits P (.ok a) :=
  .inl ⟨a, rfl, h⟩

theorem Completes.bind {α β : Type} {P : α → Prop} {Q : β → Prop} {x : Except ScenarioFailure α}
    {f : α → Except ScenarioFailure β} (hx : Completes limits P x)
    (hf : ∀ a, P a → Completes limits Q (f a)) : Completes limits Q (x >>= f) := by
  rcases hx with ⟨a, rfl, ha⟩ | ⟨mode, stream, error, rfl, hexhausted⟩
  · exact hf a ha
  · exact .inr ⟨mode, stream, error, rfl, hexhausted⟩

end Completes

section Execute

variable {limits : Limits} {keys : Finset CacheKey} {sources : List (PreparedEnvelope canon)}
  {starts : List (StreamState canon)} {s : List (StreamState canon) × Nat}
  {mode : ExecutionMode}

/-- Every stream of an execution is under way. -/
structure ServesAll (limits : Limits) (keys : Finset CacheKey)
    (sources : List (PreparedEnvelope canon)) (starts states : List (StreamState canon)) :
    Prop where
  length : states.length = starts.length
  serves : ∀ (stream : Nat) (start state : StreamState canon), starts[stream]? = some start →
    states[stream]? = some state → state.Serves limits keys sources start

/-- A delivery of the trace, routed to a stream that accepts it. -/
structure Routable (starts : List (StreamState canon)) (sources : List (PreparedEnvelope canon))
    (delivery : Nat × PreparedEnvelope canon) : Prop where
  accepted : ∃ start, starts[delivery.1]? = some start ∧ start.Accepts delivery.2
  mem : delivery.2 ∈ sources

/-- One delivery, while the count of deliveries has room for it. -/
theorem admitRouted_completes (hs : ServesAll limits keys sources starts s.1)
    (hfits : FitsCounters limits keys (sources.flatMap PreparedEnvelope.mutations))
    {delivery : Nat × PreparedEnvelope canon} (hdelivery : Routable starts sources delivery)
    (hcount : s.2 + 1 < 2 ^ 64) :
    Completes limits (fun s' => ServesAll limits keys sources starts s'.1 ∧ s'.2 = s.2 + 1)
      (admitRouted mode s delivery) := by
  obtain ⟨start, hstart, haccepts⟩ := hdelivery.accepted
  obtain ⟨hlt, -⟩ := List.getElem?_eq_some_iff.mp hstart
  rw [← hs.length] at hlt
  have hstate : s.1[delivery.1]? = some s.1[delivery.1] := List.getElem?_eq_getElem hlt
  have hserves := hs.serves _ _ _ hstart hstate
  have hopen : (SessionStatus.sealed) ≠ .failed := nofun
  rcases hserves.admitInner hfits (haccepts.of_same hserves.same) hdelivery.mem with
    ⟨d, state', hinner, hserves'⟩ | ⟨error, hinner, hexhausted⟩
  · have hresult := admitDelivery_eq_ok.mpr ⟨hserves.live, hopen, hinner⟩
    refine .inl ⟨_, admitRouted_eq_ok.mpr ⟨_, state', hstate, admitOne_eq_ok.mpr ⟨d, hresult⟩,
      hcount, rfl⟩, ⟨?_, ?_⟩, rfl⟩
    · show (s.1.set delivery.1 state').length = _
      rw [List.length_set, hs.length]
    · intro stream start' state hstart' hstate'
      have hstate' : (s.1.set delivery.1 state')[stream]? = some state := hstate'
      rw [List.getElem?_set] at hstate'
      by_cases heq : delivery.1 = stream
      · subst heq
        rw [if_pos rfl, if_pos hlt] at hstate'
        obtain rfl := Option.some.inj hstate'
        obtain rfl := Option.some.inj (hstart.symm.trans hstart')
        exact hserves'
      · rw [if_neg heq] at hstate'
        exact hs.serves _ _ _ hstart' hstate'
  · refine .inr ⟨mode, delivery.1, error, ?_, hexhausted⟩
    have hresult := StreamState.admitDelivery_of_error hserves.live hopen hinner
    unfold admitRouted
    rw [hstate]
    dsimp only [okOr, Bind.bind, Except.bind]
    rw [hresult]
    rfl

/-- The loop of `execute`. -/
theorem foldlM_admitRouted_completes
    (hfits : FitsCounters limits keys (sources.flatMap PreparedEnvelope.mutations))
    {deliveries : List (Nat × PreparedEnvelope canon)} :
    ∀ {s : List (StreamState canon) × Nat}, ServesAll limits keys sources starts s.1 →
      (∀ delivery ∈ deliveries, Routable starts sources delivery) →
      s.2 + deliveries.length < 2 ^ 64 →
      Completes limits (fun s' => ServesAll limits keys sources starts s'.1)
        (deliveries.foldlM (admitRouted mode) s) := by
  induction deliveries with
  | nil => exact fun hs _ _ => .ok hs
  | cons delivery deliveries ih =>
      intro s hs hroutable hcount
      rw [List.length_cons] at hcount
      rw [List.foldlM_cons]
      refine (admitRouted_completes hs hfits (hroutable _ List.mem_cons_self) (by omega)).bind
        fun s' hs' => ?_
      refine ih hs'.1 (fun d hd => hroutable d (List.mem_cons_of_mem _ hd)) ?_
      rw [hs'.2]
      omega

end Execute

namespace SealedTrace

variable {trace : SealedTrace canon} {session : SessionId} {limits : Limits}
  {records : List Record} {allocator : Allocator} {mode : ExecutionMode}

/-- The fresh states of the first streams. -/
def startsOf (trace : SealedTrace canon) (streamPrefixLen : Nat) : List (StreamState canon) :=
  (trace.streams.take streamPrefixLen).map fromBlueprint

theorem mapM_startStream (h : SealedIn session limits records trace) (streamPrefixLen : Nat) :
    (trace.streams.take streamPrefixLen).zipIdx.mapM (startStream trace.sealedSession mode) =
      .ok (trace.startsOf streamPrefixLen) := by
  have hstart : ∀ stream ∈ (trace.streams.take streamPrefixLen).zipIdx,
      startStream trace.sealedSession mode stream =
        .ok (fromBlueprint stream.1 : StreamState canon) := by
    intro stream hstream
    have hmem : stream.1 ∈ trace.streams :=
      List.mem_of_mem_take (List.fst_mem_of_mem_zipIdx hstream)
    have hsession : ¬ stream.1.session ≠ trace.sealedSession.session :=
      not_not_intro ((h.blueprints _ hmem).1.trans h.sealedSession.symm)
    exact mapError_eq_ok.mpr
      (bind_ok (rejectIf_neg hsession) (bind_ok (rejectIf_neg fun h => h rfl) rfl))
  rw [mapM_eq_map hstart, startsOf]
  have hfst : (trace.streams.take streamPrefixLen).zipIdx.map Prod.fst =
      trace.streams.take streamPrefixLen := List.zipIdx_map_fst 0 _
  rw [← hfst, List.map_map, hfst]
  rfl

theorem servesAll_startsOf (h : SealedIn session limits records trace) {keys : Finset CacheKey}
    {streamPrefixLen : Nat} : ServesAll limits keys trace.sources
      (trace.startsOf streamPrefixLen) (trace.startsOf streamPrefixLen) where
  length := rfl
  serves := fun stream start state hstart hstate => by
    obtain rfl := Option.some.inj (hstart.symm.trans hstate)
    obtain ⟨blueprint, hblueprint, rfl⟩ := List.mem_map.mp (List.mem_of_getElem? hstart)
    rw [← (h.blueprints _ (List.mem_of_mem_take hblueprint)).2]
    exact serves_fromBlueprint blueprint

theorem mapM_finishStream (h : SealedIn session limits records trace) {keys : Finset CacheKey}
    {streamPrefixLen : Nat} {states : List (StreamState canon)}
    (hstates : ServesAll limits keys trace.sources (trace.startsOf streamPrefixLen) states) :
    ∃ summaries, states.zipIdx.mapM (finishStream trace.sealedSession mode) = .ok summaries := by
  refine mapM_total fun state hstate => ?_
  obtain ⟨stream, hstream⟩ := List.getElem?_of_mem (List.fst_mem_of_mem_zipIdx hstate)
  have hlt : stream < (trace.startsOf streamPrefixLen).length := by
    rw [← hstates.length]
    exact (List.getElem?_eq_some_iff.mp hstream).1
  have hstart := List.getElem?_eq_getElem hlt
  obtain ⟨blueprint, hblueprint, heq⟩ := List.mem_map.mp (List.mem_of_getElem? hstart)
  have hsession : (trace.startsOf streamPrefixLen)[stream].session =
      trace.sealedSession.session := by
    rw [← heq]
    exact (h.blueprints _ (List.mem_of_mem_take hblueprint)).1.trans h.sealedSession.symm
  obtain ⟨summary, hsummary⟩ := (hstates.serves _ _ _ hstart hstream).finish hsession
  exact ⟨summary, mapError_eq_ok.mpr hsummary⟩

/-- An execution over routable deliveries summarizes every stream of its
prefix, or runs into a cache ceiling. -/
theorem execute_completes (h : SealedIn session limits records trace)
    (hallocator : ∀ reservation n, allocator reservation n = true)
    (hfits : FitsCounters limits (storedKeys (trace.sources.flatMap PreparedEnvelope.mutations))
      (trace.sources.flatMap PreparedEnvelope.mutations))
    {scheduleId : String} {streamPrefixLen sourcePrefixLen : Nat}
    {deliveries : List (Nat × PreparedEnvelope canon)}
    (hstreams : streamPrefixLen ≤ trace.streams.length)
    (hsources : sourcePrefixLen ≤ trace.sources.length)
    (hroutable : ∀ delivery ∈ deliveries,
      Routable (trace.startsOf streamPrefixLen) trace.sources delivery)
    (hcount : deliveries.length < 2 ^ 64) :
    Completes limits (fun execution => execution.mode = mode ∧
        execution.scheduleId = scheduleId ∧ execution.streamPrefixLen = streamPrefixLen ∧
        execution.sourcePrefixLen = sourcePrefixLen ∧ execution.streams.length = streamPrefixLen)
      (trace.execute allocator mode scheduleId streamPrefixLen sourcePrefixLen deliveries) := by
  have hreserve : ∀ reservation n error, tryReserve allocator reservation n error = .ok () := by
    intro reservation n error
    refine rejectIf_neg ?_
    rw [hallocator]
    exact Bool.noConfusion
  have hprefixes : ¬ (streamPrefixLen > trace.streams.length ∨
      sourcePrefixLen > trace.sources.length) := by omega
  unfold execute
  rw [rejectIf_neg hprefixes, hreserve, hreserve, mapM_startStream h]
  refine (foldlM_admitRouted_completes hfits (servesAll_startsOf h) hroutable ?_).bind
    fun routed hrouted => ?_
  · omega
  obtain ⟨summaries, hsummaries⟩ :=
    @mapM_finishStream canon trace session limits records mode h _ _ _ hrouted
  show Completes _ _ (routed.1.zipIdx.mapM (finishStream trace.sealedSession mode) >>= _)
  rw [hsummaries]
  refine .ok ⟨rfl, rfl, rfl, rfl, ?_⟩
  show summaries.length = streamPrefixLen
  rw [length_mapM hsummaries, List.length_zipIdx, hrouted.length, startsOf, List.length_map,
    List.length_take, Nat.min_eq_left hstreams]

/-- The stream a source is routed to accepts it. -/
theorem SealedIn.accepts (h : SealedIn session limits records trace) {k ordinal : Nat}
    {source : PreparedEnvelope canon} (hsource : trace.sources[k]? = some source)
    (hroute : trace.sourceStreams[k]? = some ordinal) :
    ∃ blueprint, trace.streams[ordinal]? = some blueprint ∧
      (fromBlueprint blueprint : StreamState canon).Accepts source := by
  obtain ⟨source', hsource', hid⟩ := getElem?_of_forall₂ h.sourceStreams hroute
  obtain rfl := Option.some.inj (hsource.symm.trans hsource')
  rw [streamIdsOf, List.getElem?_map, Option.map_eq_some_iff] at hid
  obtain ⟨stream, hstream, hid⟩ := hid
  obtain ⟨hlt, -⟩ := List.getElem?_eq_some_iff.mp hstream
  rw [h.streams.length_eq] at hlt
  have hblueprint := List.getElem?_eq_getElem hlt
  obtain ⟨stream', hstream', hregistered⟩ := getElem?_of_forall₂ h.streams hblueprint
  obtain rfl := Option.some.inj (hstream.symm.trans hstream')
  -- the declaration the validator found is the one the source is routed to
  obtain ⟨envelope, henvelope, hprepared⟩ := getElem?_of_forall₂ h.sources hsource
  obtain ⟨declared, hdeclared, hid', hcursor⟩ :=
    declared_of_mem h.wellFormed (List.mem_of_getElem? henvelope)
  have heq : declared = stream := by
    refine List.inj_on_of_nodup_map h.wellFormed.streamIds hdeclared
      (List.mem_of_getElem? hstream) ?_
    rw [hid', hid, hprepared.streamId]
  subst heq
  have hmem := List.mem_of_getElem? hblueprint
  refine ⟨_, hblueprint, ?_, ?_, ?_⟩
  · exact (h.prepared _ (List.mem_of_getElem? hsource)).trans (h.blueprints _ hmem).1.symm
  · exact hid.symm.trans hregistered.streamId.symm
  · show _ ≤ source.cursor
    rw [hprepared.cursor]
    exact Nat.le_trans (Nat.le_of_eq hregistered.initialCursor) hcursor

/-- The sources of a schedule's prefix are routable among its streams. -/
theorem SealedIn.routable (h : SealedIn session limits records trace) {before after : List Record}
    (hrecords : records = before ++ after) {k : Nat} {delivery : Nat × PreparedEnvelope canon}
    (hk : k < (envelopeIdsOf before).length)
    (hsource : trace.sources[k]? = some delivery.2)
    (hroute : trace.sourceStreams[k]? = some delivery.1) :
    Routable (trace.startsOf (streamIdsOf before).length) trace.sources delivery where
  accepted := by
    obtain ⟨blueprint, hblueprint, haccepts⟩ := h.accepts hsource hroute
    refine ⟨_, ?_, haccepts⟩
    have hlt : delivery.1 < (streamIdsOf before).length := by
      refine h.route_lt hrecords _ (List.mem_of_getElem? (i := k) ?_)
      rw [List.getElem?_take, if_pos hk]
      exact hroute
    rw [startsOf, List.getElem?_map, List.getElem?_take, if_pos hlt, hblueprint]
    rfl
  mem := List.mem_of_getElem? hsource

theorem sliceTo_total {α : Type*} {values : List α} {end_ : Nat} (h : end_ ≤ values.length) :
    sliceTo values end_ = .ok (values.take end_) :=
  if_pos h

/-- Two executions of one plan can be compared. -/
theorem comparison_completes (hallocator : ∀ reservation n, allocator reservation n = true)
    {pristine faulted : ScenarioExecution} (hpristine : pristine.mode = .pristine)
    (hfaulted : faulted.mode = .faulted) (hid : pristine.scheduleId = faulted.scheduleId)
    (hstreams : pristine.streamPrefixLen = faulted.streamPrefixLen)
    (hsources : pristine.sourcePrefixLen = faulted.sourcePrefixLen)
    (hlength : pristine.streams.length = faulted.streams.length) :
    Completes limits (fun comparison => comparison.streams.length = pristine.streams.length)
      (ScheduleComparison.new allocator pristine faulted) := by
  unfold ScheduleComparison.new
  rw [rejectIf_neg (by simp [hpristine, hfaulted, hid, hstreams, hsources, hlength]), tryReserve,
    rejectIf_neg (by simp [hallocator])]
  refine .ok ?_
  show (pristine.streams.zipWith compareStreams faulted.streams).length = _
  rw [List.length_zipWith, hlength, Nat.min_self]

section Compare

variable {before after : List Record} {schedule : FaultSchedule}
  (h : SealedIn session limits records trace)
  (hrecords : records = before ++ .faultSchedule schedule :: after)

include h hrecords

/-- The originals of a schedule are routable. -/
theorem SealedIn.routable_originals : ∀ delivery ∈
    (trace.sourceStreams.take (envelopeIdsOf before).length).zip
      (trace.sources.take (envelopeIdsOf before).length),
    Routable (trace.startsOf (streamIdsOf before).length) trace.sources delivery := by
  intro delivery hdelivery
  obtain ⟨k, hk⟩ := List.getElem?_of_mem hdelivery
  obtain ⟨hroute, hsource⟩ := List.getElem?_zip_eq_some.mp hk
  rw [List.getElem?_take] at hroute hsource
  split at hsource
  next hlt =>
    rw [if_pos hlt] at hroute
    exact h.routable hrecords hlt hsource hroute
  next => cases hsource

/-- So are the deliveries it materializes to. -/
theorem SealedIn.routable_delivered {live : List DeliveryKey}
    {deliveries : List (ScheduledDelivery canon)}
    (hknown : ∀ key ∈ live, key.source < (envelopeIdsOf before).length)
    (hdeliveries : List.Forall₂ (Delivers trace.sources trace.sourceStreams) live deliveries) :
    ∀ delivery ∈ deliveries.map fun delivery => (delivery.streamIndex, delivery.source),
      Routable (trace.startsOf (streamIdsOf before).length) trace.sources delivery := by
  intro delivery hdelivery
  obtain ⟨scheduled, hscheduled, rfl⟩ := List.mem_map.mp hdelivery
  obtain ⟨i, hi⟩ := List.getElem?_of_mem hscheduled
  obtain ⟨key, hkey, hdelivers⟩ := getElem?_of_forall₂ hdeliveries hi
  exact h.routable hrecords (hknown key (List.mem_of_getElem? hkey)) hdelivers.source
    hdelivers.streamIndex

end Compare

/-- Comparing a schedule of a sealed trace either yields one verdict for every
stream that is visible to it, or a stream runs into a ceiling of its cache. -/
theorem compareSchedule_completes {assembly : Allocator}
    {inputs : List (ValidatedRecord × Option BaselineAuthority)} {a : TraceAssembler canon}
    (hallocator : ∀ reservation n, allocator reservation n = true)
    (hnew : TraceAssembler.new session limits = .ok a)
    (hfinish : (a.pushAll inputs).finish assembly = .ok trace)
    (hkeys : CountersHold limits (storedKeys (trace.sources.flatMap PreparedEnvelope.mutations)))
    (hremoves : removedHashes (trace.sources.flatMap PreparedEnvelope.mutations) < 2 ^ 64)
    {index : Nat} (hindex : index < trace.schedules.length) :
    (∃ comparison, trace.compareSchedule allocator index = .ok comparison ∧
        comparison.streams.length = trace.schedules[index].streamPrefixLen) ∨
      ∃ mode stream error, trace.compareSchedule allocator index =
          .error (.error (.executionState mode stream error)) ∧ CacheExhausted limits error := by
  have h := finish_sealed hnew hfinish
  have hfits : FitsCounters limits
      (storedKeys (trace.sources.flatMap PreparedEnvelope.mutations))
      (trace.sources.flatMap PreparedEnvelope.mutations) :=
    ⟨Finset.Subset.refl _, hkeys, hremoves⟩
  have hget := List.getElem?_eq_getElem hindex
  generalize trace.schedules[index] = plan at hget ⊢
  obtain ⟨before, schedule, after, hrecords, -, hplan⟩ := h.schedule_at hget
  obtain ⟨hsources, hstreams, -⟩ := h.prefix_ok hrecords hplan
  obtain ⟨materialized, hmaterialized, hdeliveries⟩ := h.materialize_ok hrecords hplan hallocator
  have hmaterialize : trace.materialize allocator index = .ok materialized :=
    bind_ok (okOr_eq_ok.mpr hget) hmaterialized
  obtain ⟨-, hall, hoccurrences⟩ := h.wellFormed.inPlace before _ after hrecords
  obtain ⟨hnumbered, hlength⟩ := (Replay.numbered_start (envelopeIdsOf before).length).run hall
  have hmax := limits.maxOccurrencesPerSchedule.toNat_lt
  obtain rfl := Option.some.inj hplan
  dsimp only at hsources hstreams
  have hslice : sliceTo trace.sourceStreams (envelopeIdsOf before).length =
      .ok (trace.sourceStreams.take (envelopeIdsOf before).length) :=
    sliceTo_total (h.sourceStreams.length_eq ▸ hsources)
  have hroutable := h.routable_originals hrecords
  have hroutable' := h.routable_delivered hrecords hnumbered.known hdeliveries
  show Completes limits _ (trace.compareSchedule allocator index)
  unfold compareSchedule
  rw [okOr_eq_ok.mpr hget, hmaterialize]
  dsimp only [Bind.bind, Except.bind]
  rw [hslice, sliceTo_total hsources]
  -- the pristine side, and then the faulted one
  refine (execute_completes h hallocator hfits hstreams hsources hroutable ?_).bind
    fun pristine hpristine => ?_
  · rw [List.length_zip, List.length_take, List.length_take]
    omega
  refine (execute_completes h hallocator hfits hstreams hsources hroutable' ?_).bind
    fun faulted hfaulted => ?_
  · have hstart : (Replay.start (envelopeIdsOf before).length).live.length =
        (envelopeIdsOf before).length := by
      rw [Replay.start, List.length_map, List.length_range]
    rw [List.length_map, ← hdeliveries.length_eq]
    omega
  obtain ⟨hmode, hid, hstreamLen, hsourceLen, hcount⟩ := hpristine
  obtain ⟨hmode', hid', hstreamLen', hsourceLen', hcount'⟩ := hfaulted
  have hcomparison := @comparison_completes limits allocator hallocator pristine faulted hmode
    hmode' (hid.trans hid'.symm) (hstreamLen.trans hstreamLen'.symm)
    (hsourceLen.trans hsourceLen'.symm) (hcount.trans hcount'.symm)
  rwa [hcount] at hcomparison

/-- The sample schedule is compared. -/
theorem sample_compareSchedule_completes :
    ∃ trace, Sample.sealedTrace = .ok trace ∧
      ((∃ comparison, trace.compareSchedule Sample.granting 0 = .ok comparison ∧
          comparison.streams.length = 1) ∨
        ∃ mode stream error, trace.compareSchedule Sample.granting 0 =
          .error (.error (.executionState mode stream error)) ∧
          CacheExhausted Sample.forgetful error) := by
  have hfacts : Sample.sealedTrace.toOption.map (fun trace =>
      let mutations := trace.sources.flatMap PreparedEnvelope.mutations
      decide (trace.schedules.map SchedulePlan.streamPrefixLen = [1] ∧
        (storedKeys mutations).card < 2 ^ 64 ∧ keyBytes (storedKeys mutations) < 2 ^ 64 ∧
        removedHashes mutations < 2 ^ 64)) = some true := by
    decide +kernel
  cases htrace : Sample.sealedTrace with
  | error failure =>
      rw [htrace] at hfacts
      cases hfacts
  | ok trace =>
      rw [htrace] at hfacts
      obtain ⟨hplans, hcard, hbytes, hremoves⟩ := of_decide_eq_true (Option.some.inj hfacts)
      have hindex : 0 < trace.schedules.length := by
        have hlength := congrArg List.length hplans
        rw [List.length_map, List.length_singleton] at hlength
        omega
      obtain ⟨a, hnew, hfinish⟩ := bind_eq_ok.mp htrace
      have hcompletes := compareSchedule_completes (fun _ _ => rfl : ∀ reservation n,
        Sample.granting reservation n = true) hnew hfinish (countersHold_of_lt hcard hbytes)
        hremoves hindex
      have hone : trace.schedules[0].streamPrefixLen = 1 := by
        have hfirst := congrArg (·[0]?) hplans
        simpa [hindex] using hfirst
      rw [hone] at hcompletes
      exact ⟨trace, rfl, hcompletes⟩

end SealedTrace

end KvCrucible

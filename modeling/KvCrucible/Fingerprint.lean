/-
KvCrucible/Fingerprint.lean

Bounded semantic fingerprints of mutation lists (`fingerprint.rs`).

The RFC 8785 serializer and SHA-256 are not part of the repository.  They
enter as one parameter, `Canonical`: the writes the serializer makes for a
mutation list, whether it accepts the list, and the digest of a byte string.
Everything between the two (the ceiling, the byte count, the order in which
failures are reported) is the repository's own `HashWriter`.
-/
import KvCrucible.Ir

namespace KvCrucible

/-- `SemanticFingerprint`. -/
structure SemanticFingerprint where
  bytes : Vector UInt8 32
  deriving DecidableEq

/-- The libraries a fingerprint rests on: `serde_json_canonicalizer` as the
writes it makes for a mutation list and whether it accepts that list, and
`sha2::Sha256`. -/
structure Canonical where
  writes : List Mutation → List (List UInt8)
  accepts : List Mutation → Bool
  sha256 : List UInt8 → Vector UInt8 32

/-- The canonical text of a mutation list. -/
def Canonical.text (canon : Canonical) (mutations : List Mutation) : List UInt8 :=
  (canon.writes mutations).flatten

/-- The fingerprint of a mutation list. -/
def Canonical.fingerprint (canon : Canonical) (mutations : List Mutation) :
    SemanticFingerprint :=
  ⟨canon.sha256 (canon.text mutations)⟩

/-- `fingerprint::Error`. -/
inductive FingerprintError where
  | canonicalization
  | resourceLimit (maximum observed : Nat)
  | counterOverflow
  deriving DecidableEq

/-- `Computed`. -/
structure Computed where
  fingerprint : SemanticFingerprint
  canonicalBytes : Nat

/-- `HashWriter`, with the bytes fed to the hasher in place of its state. -/
structure HashWriter where
  hashed : List UInt8
  maximum : Nat
  written : Nat
  failure : Option FingerprintError

namespace HashWriter

/-- `HashWriter::new`. -/
def new (maximum : Nat) : HashWriter where
  hashed := []
  maximum := maximum
  written := 0
  failure := none

/-- `Write::write`: `false` is the `io::Error`, after which the serializer
stops. -/
def write (w : HashWriter) (bytes : List UInt8) : Bool × HashWriter :=
  match checkedAdd w.written bytes.length with
  | none => (false, { w with failure := some .counterOverflow })
  | some observed =>
      if observed > w.maximum then
        (false, { w with failure := some (.resourceLimit w.maximum observed) })
      else (true, { w with hashed := w.hashed ++ bytes, written := observed })

/-- The serializer's writes, up to and including the first rejected one. -/
def writeAll (w : HashWriter) : List (List UInt8) → Bool × HashWriter
  | [] => (true, w)
  | bytes :: rest =>
      match w.write bytes with
      | (true, w) => writeAll w rest
      | (false, w) => (false, w)

/-- `HashWriter::finish`. -/
def finish (canon : Canonical) (w : HashWriter) : Computed where
  fingerprint := ⟨canon.sha256 w.hashed⟩
  canonicalBytes := w.written

end HashWriter

/-- `fingerprint::value` at the mutation list of an envelope. -/
def Canonical.value (canon : Canonical) (mutations : List Mutation) (maximum : Nat) :
    Except FingerprintError Computed :=
  let (serialized, writer) := (HashWriter.new maximum).writeAll (canon.writes mutations)
  match writer.failure with
  | some failure => .error failure
  | none =>
      if serialized && canon.accepts mutations then .ok (writer.finish canon)
      else .error .canonicalization

/-- `fingerprint::envelope`. -/
def Canonical.envelope (canon : Canonical) (envelope : EventEnvelope) (maximum : Nat) :
    Except FingerprintError Computed :=
  canon.value envelope.mutations maximum

/-! ### What a successful computation reports -/

theorem HashWriter.write_ok {w w' : HashWriter} {bytes : List UInt8}
    (h : w.write bytes = (true, w')) :
    w'.hashed = w.hashed ++ bytes ∧ w'.written = w.written + bytes.length ∧
      w'.maximum = w.maximum ∧ w'.written < 2 ^ 64 := by
  unfold HashWriter.write at h
  rcases e : checkedAdd w.written bytes.length with - | observed
  · simp [e] at h
  · obtain ⟨hsum, hlt⟩ := checkedAdd_eq_some.mp e
    rw [e] at h
    by_cases hmax : observed > w.maximum
    · simp [hmax] at h
    · simp only [hmax, if_false, Prod.mk.injEq, true_and] at h
      subst h
      exact ⟨rfl, hsum.symm, rfl, hlt⟩

theorem HashWriter.writeAll_ok {w w' : HashWriter} {chunks : List (List UInt8)}
    (hw : w.written < 2 ^ 64) (h : w.writeAll chunks = (true, w')) :
    w'.hashed = w.hashed ++ chunks.flatten ∧
      w'.written = w.written + chunks.flatten.length ∧ w'.written < 2 ^ 64 := by
  induction chunks generalizing w with
  | nil =>
      obtain rfl : w = w' := by simpa [HashWriter.writeAll] using h
      exact ⟨by simp, by simp, hw⟩
  | cons bytes rest ih =>
      rcases e : w.write bytes with ⟨ok, w₁⟩
      cases ok with
      | false => simp [HashWriter.writeAll, e] at h
      | true =>
          obtain ⟨hhash, hwritten, -, hlt⟩ := HashWriter.write_ok e
          simp only [HashWriter.writeAll, e] at h
          obtain ⟨hhash', hwritten', hlt'⟩ := ih hlt h
          refine ⟨?_, ?_, hlt'⟩
          · rw [hhash', hhash, List.flatten_cons, List.append_assoc]
          · rw [hwritten', hwritten, List.flatten_cons, List.length_append, Nat.add_assoc]

/-- A successful computation reports the digest and the length of the
canonical text, however the serializer splits its writes. -/
theorem Canonical.value_ok {canon : Canonical} {mutations : List Mutation} {maximum : Nat}
    {computed : Computed} (h : canon.value mutations maximum = .ok computed) :
    computed.fingerprint = canon.fingerprint mutations ∧
      computed.canonicalBytes = (canon.text mutations).length ∧
      computed.canonicalBytes < 2 ^ 64 := by
  rcases e : (HashWriter.new maximum).writeAll (canon.writes mutations) with ⟨serialized, w⟩
  unfold Canonical.value at h
  simp only [e] at h
  rcases hfail : w.failure with - | failure
  · cases serialized with
    | false => simp [hfail] at h
    | true =>
        obtain ⟨hhash, hwritten, hlt⟩ :=
          HashWriter.writeAll_ok (by simp [HashWriter.new]) e
        by_cases hacc : canon.accepts mutations
        · have hc : w.finish canon = computed := by simpa [hfail, hacc] using h
          subst hc
          refine ⟨?_, ?_, hlt⟩
          · simp [HashWriter.finish, Canonical.fingerprint, Canonical.text, hhash,
              HashWriter.new]
          · simp [HashWriter.finish, Canonical.text, hwritten, HashWriter.new]
        · simp [hfail, hacc] at h
  · simp [hfail] at h

/-! ### Sample payloads -/

namespace Sample

/-- The canonical form of an integer hash. -/
def hashText : OpaqueHash → String
  | .u64 value =>
      "\x7b\"encoding\":\"u64\",\"value\":\"" ++ toString value.get.toNat ++ "\"\x7d"
  | .bytes _ => ""

/-- The canonical form of a store without evidence or of a clear. -/
def mutationText : Mutation → String
  | .storeRun run => "\x7b\"group\":\x7b\"kind\":\"unspecified\"\x7d,\"hashes\":[" ++
      ",".intercalate (run.hashes.map hashText) ++
      "],\"medium\":\x7b\"kind\":\"unspecified\"\x7d,\"metadata\":\x7b\x7d,\"op\":\"store_run\"\x7d"
  | .clear _ => "\x7b\"metadata\":\x7b\x7d,\"op\":\"clear\"\x7d"
  | .remove _ _ _ _ => ""

/-- The bytes of the canonical form, which is ASCII here. -/
def text (mutations : List Mutation) : List UInt8 :=
  ("[" ++ ",".intercalate (mutations.map mutationText) ++ "]").toList.map fun c => c.toNat.toUInt8

/-- The bytes of a digest, most significant first. -/
def digest (value : Nat) : Vector UInt8 32 :=
  ⟨⟨(List.range 32).map fun i => (value >>> (8 * (31 - i))).toUInt8⟩, by simp⟩

/-- SHA-256 at the canonical forms of three payloads. -/
def sha256 (bytes : List UInt8) : Vector UInt8 32 :=
  if bytes = text [clear] then
    digest 0x2bd69add5e88a02ccd36f76d180bb4aa51864f143f90352fbfdae334652a23e2
  else if bytes = text [store 1] then
    digest 0x415adc654f13a239a791058830cc41699ad2af1f879c5871af4a43a07916a976
  else if bytes = text [store 2] then
    digest 0x38f4b8010af7410b4de507ccfd655bb96e1353ee26951e48b437c88b8a052c45
  else digest 0

/-- The libraries, at the sample payloads. -/
def canonical : Canonical where
  writes := fun mutations => [text mutations]
  accepts := fun _ => true
  sha256 := sha256

end Sample

end KvCrucible

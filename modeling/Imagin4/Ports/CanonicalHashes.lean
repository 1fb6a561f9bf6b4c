import Imagin4.Ports.MemoryAdmission

/-!
# Hashes of canonical texts

A request is compared with the one its idempotency key has been used for, and the
parameters of a pending action with those it was made from, by the SHA-256 of a
canonical text: sorted keys, no spaces, and escapes for everything beyond ASCII.  The
strings here are those without surrogates; `CodePoints` has the others.

## Main results

* `canonical_hashes_iff` — two objects have one hash exactly if they are equal up to
  the order of keys.
* `checkIdempotency_cases` — so a used key is a replay or a conflict.
-/

namespace Imagin4.Ports

section Hashes

variable (host : AdmissionHost)

/-- `compute_params_fingerprint`. -/
def computeParamsFingerprint (params : Json) : String :=
  let canonical := params.dumps host.floats
  host.sha256 canonical

/-- The fingerprint of parameters is their payload hash. -/
theorem computeParamsFingerprint_eq (params : Json) :
    computeParamsFingerprint host params = canonicalPayloadHash host params := rfl

variable {host}

/-- Both hashes, for SHA-256 without collisions. -/
theorem canonical_hashes_iff (hsha : Function.Injective host.sha256) (a b : Dict) :
    (canonicalPayloadHash host a.json = canonicalPayloadHash host b.json ↔
      Json.Same a.json b.json) ∧
    (computeParamsFingerprint host a.json = computeParamsFingerprint host b.json ↔
      Json.Same a.json b.json) := by
  constructor
  · exact hash_eq_iff hsha a b
  · rw [computeParamsFingerprint_eq, computeParamsFingerprint_eq]
    exact hash_eq_iff hsha a b

/-- Two members, one way round and the other. -/
def numberFirst : Dict :=
  (Dict.empty.set "n" (.int 1) (.int 1)).set "text" (.str "é") (.str "é")

def textFirst : Dict :=
  (Dict.empty.set "text" (.str "é") (.str "é")).set "n" (.int 1) (.int 1)

theorem canonical_hashes_reordered :
    canonicalPayloadHash plainHost numberFirst.json =
        canonicalPayloadHash plainHost textFirst.json ∧
      computeParamsFingerprint plainHost numberFirst.json =
        computeParamsFingerprint plainHost textFirst.json := by
  have hHashes := @canonical_hashes_iff plainHost plainSha256_injective numberFirst
    textFirst
  have hSame : Json.Same numberFirst.json textFirst.json := by
    refine Dict.same_json (fun key => ?_)
    unfold numberFirst textFirst
    simp only [Dict.lookup_set]
    by_cases hText : key = "text"
    · simp [hText]
    · simp [hText]
  exact ⟨hHashes.1.mpr hSame, hHashes.2.mpr hSame⟩

/-- A used key is a replay for the objects that are the same up to the order of keys,
and a conflict for all others. -/
theorem checkIdempotency_cases (hsha : Function.Injective host.sha256)
    (existing newPayload : Dict) :
    (Json.Same newPayload.json existing.json →
      checkIdempotency host (some existing.json) newPayload.json = .replay) ∧
    (¬ Json.Same newPayload.json existing.json →
      checkIdempotency host (some existing.json) newPayload.json = .conflict) := by
  have hHash := hash_eq_iff hsha newPayload existing
  unfold checkIdempotency
  constructor
  · intro hSame
    exact if_pos (hHash.mpr hSame)
  · intro hDiffers
    exact if_neg (fun h => hDiffers (hHash.mp h))

end Hashes

end Imagin4.Ports

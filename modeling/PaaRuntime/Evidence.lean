import Mathlib.Logic.Function.Basic
import PaaRuntime.Errors

/-!
# Content-addressed evidence

References, digests and the files under `evidence/paa`. A digest is a text of 64 lowercase hex
digits; SHA-256 is an arbitrary function to digests, so that collisions are not excluded. The
`Disk` holds the regular files below one evidence root: `evidence.json` of each digest, and the
temporary files that writers create beside it. Only `store_evidence` writes there.
-/

namespace PaaRuntime

abbrev Bytes := List UInt8

/-- `[0-9a-f]`. -/
def isLowerHex (c : Char) : Bool := decide ('0' ≤ c ∧ c ≤ '9' ∨ 'a' ≤ c ∧ c ≤ 'f')

/-- `[0-9a-f]{64}`. -/
def IsSha256Hex (s : String) : Prop := s.toList.length = 64 ∧ s.toList.all isLowerHex = true

instance (s : String) : Decidable (IsSha256Hex s) := inferInstanceAs (Decidable (_ ∧ _))

/-- A digest: 64 lowercase hex digits. -/
structure Digest where
  hex : String
  wellFormed : IsSha256Hex hex
  deriving DecidableEq

/-- `hashlib`: the digest function, on which nothing is assumed. -/
class Hashlib where
  sha256 : Bytes → Digest

/-- A digest function under which everything collides. -/
abbrev Hashlib.colliding : Hashlib :=
  ⟨fun _ => ⟨"0000000000000000000000000000000000000000000000000000000000000000", by decide⟩⟩

/-- `compute_sha256`. -/
def computeSha256 [Hashlib] (data : Bytes) : Digest := Hashlib.sha256 data

/-! ## References -/

/-- `evidence_ref_for`. -/
def evidenceRefFor (sha256 : String) : String := "evidence/paa/" ++ sha256 ++ "/evidence.json"

/-- `_resolve_evidence_path`: the digest of a reference of the exact published shape. The path it
names is the `evidence.json` of that digest. -/
def resolveEvidencePath (evidenceRef : String) : Except PyError Digest :=
  let chars := evidenceRef.toList
  let hex := String.ofList ((chars.drop 13).take 64)
  if h : (chars.take 13 = "evidence/paa/".toList ∧ chars.drop 77 = "/evidence.json".toList) ∧
      IsSha256Hex hex then
    .ok ⟨hex, h.2⟩
  else
    .error ⟨.evidenceError, s!"evidence_ref {pyRepr evidenceRef} is not a well-formed " ++
      "evidence/paa/<sha256>/evidence.json reference"⟩

theorem evidenceRefFor_toList (s : String) :
    (evidenceRefFor s).toList = "evidence/paa/".toList ++ (s.toList ++ "/evidence.json".toList) := by
  simp only [evidenceRefFor, String.toList_append, List.append_assoc]

/-- Resolving the reference of a digest gives the digest back. -/
@[simp] theorem resolveEvidencePath_evidenceRefFor (d : Digest) :
    resolveEvidencePath (evidenceRefFor d.hex) = .ok d := by
  have hlen : d.hex.toList.length = 64 := d.wellFormed.1
  have htake : (evidenceRefFor d.hex).toList.take 13 = "evidence/paa/".toList := by
    rw [evidenceRefFor_toList]
    exact List.take_left' rfl
  have hmid : ((evidenceRefFor d.hex).toList.drop 13).take 64 = d.hex.toList := by
    have hpre : "evidence/paa/".toList.length = 13 := rfl
    rw [evidenceRefFor_toList, List.drop_left' hpre]
    exact List.take_left' hlen
  have hdrop : (evidenceRefFor d.hex).toList.drop 77 = "/evidence.json".toList := by
    rw [evidenceRefFor_toList, ← List.append_assoc]
    exact List.drop_left' (by rw [List.length_append, hlen]; rfl)
  have hhex : String.ofList (((evidenceRefFor d.hex).toList.drop 13).take 64) = d.hex := by
    rw [hmid, String.ofList_toList]
  unfold resolveEvidencePath
  simp only [htake, hdrop, hhex, d.wellFormed, and_self, dite_true]

theorem resolveEvidencePath_error {ref : String} {e : PyError}
    (h : resolveEvidencePath ref = .error e) : e.cls = .evidenceError := by
  unfold resolveEvidencePath at h
  dsimp only at h
  split at h <;> cases h
  rfl

/-! ## Files -/

/-- A temporary file `.evidence-name.tmp` in the directory of a digest. -/
structure TempName where
  dir : Digest
  name : String
  deriving DecidableEq

/-- The regular files under `evidence/paa` of one root. -/
structure Disk where
  published : Digest → Option Bytes
  temps : TempName → Option Bytes

namespace Disk

def empty : Disk := ⟨fun _ => none, fun _ => none⟩

/-- Set the content of a temporary file. -/
def setTemp (disk : Disk) (tmp : TempName) (content : Option Bytes) : Disk :=
  { disk with temps := Function.update disk.temps tmp content }

/-- Make the content of a digest visible. -/
def publish (disk : Disk) (d : Digest) (content : Bytes) : Disk :=
  { disk with published := Function.update disk.published d (some content) }

@[simp] theorem setTemp_published (disk : Disk) (tmp : TempName) (c : Option Bytes) :
    (disk.setTemp tmp c).published = disk.published := rfl

@[simp] theorem setTemp_temps (disk : Disk) (tmp : TempName) (c : Option Bytes) :
    (disk.setTemp tmp c).temps = Function.update disk.temps tmp c := rfl

@[simp] theorem publish_published (disk : Disk) (d : Digest) (c : Bytes) :
    (disk.publish d c).published = Function.update disk.published d (some c) := rfl

@[simp] theorem publish_temps (disk : Disk) (d : Digest) (c : Bytes) :
    (disk.publish d c).temps = disk.temps := rfl

/-- Whatever `disk` publishes, `disk'` publishes with the same content. -/
def Extends (disk disk' : Disk) : Prop :=
  ∀ d content, disk.published d = some content → disk'.published d = some content

theorem Extends.refl (disk : Disk) : disk.Extends disk := fun _ _ h => h

theorem Extends.trans {a b c : Disk} (h : a.Extends b) (h' : b.Extends c) : a.Extends c :=
  fun d content hd => h' d content (h d content hd)

end Disk

/-- The path of a digest's `evidence.json`, for messages. -/
def evidencePath (root : String) (d : Digest) : String := root ++ "/" ++ evidenceRefFor d.hex

/-- `read_evidence_bytes` of a digest's `evidence.json`. -/
def readEvidenceBytes (root : String) (disk : Disk) (d : Digest) : Except PyError Bytes :=
  match disk.published d with
  | some data => .ok data
  | none => .error ⟨.evidenceError,
      s!"evidence source is not a regular file: {evidencePath root d}"⟩

/-- `_accept_existing`. -/
def acceptExisting (root : String) (disk : Disk) (data : Bytes) (d : Digest) :
    Except PyError (String × String) :=
  match readEvidenceBytes root disk d with
  | .error e => .error e
  | .ok existing =>
    if existing = data then .ok (evidenceRefFor d.hex, d.hex)
    else .error ⟨.evidenceError, s!"content-address collision at {evidencePath root d}: " ++
      s!"existing bytes do not match sha256 {d.hex}"⟩

/-- `verify_evidence`. -/
def verifyEvidence [Hashlib] (root : String) (disk : Disk) (evidenceRef evidenceSha256 : String) :
    Except PyError Bytes :=
  match resolveEvidencePath evidenceRef with
  | .error e => .error e
  | .ok d =>
    if d.hex ≠ evidenceSha256 then
      .error ⟨.evidenceError, s!"evidence_ref {pyRepr evidenceRef} does not match recorded " ++
        s!"evidence_sha256 {pyRepr evidenceSha256}"⟩
    else if disk.published d = none then
      .error ⟨.evidenceError, s!"evidence file is missing: {evidencePath root d}"⟩
    else
      match readEvidenceBytes root disk d with
      | .error e => .error e
      | .ok data =>
        if (computeSha256 data).hex ≠ evidenceSha256 then
          .error ⟨.evidenceError, s!"evidence at {evidencePath root d} has been tampered with: " ++
            s!"bytes hash to {(computeSha256 data).hex}, expected {evidenceSha256}"⟩
        else .ok data

/-! ## What the checks say -/

section

variable {root : String} {disk : Disk} {data : Bytes} {d : Digest}

/-- An existing artifact is accepted exactly when its bytes are the writer's. -/
theorem acceptExisting_ok {r : String × String} :
    acceptExisting root disk data d = .ok r ↔
      disk.published d = some data ∧ r = (evidenceRefFor d.hex, d.hex) := by
  unfold acceptExisting readEvidenceBytes
  rcases disk.published d with _ | existing
  · simp
  · by_cases h : existing = data
    · simp [h, eq_comm]
    · simp [h]

theorem acceptExisting_error {e : PyError} (h : acceptExisting root disk data d = .error e) :
    e.cls = .evidenceError ∧ disk.published d ≠ some data := by
  unfold acceptExisting readEvidenceBytes at h
  rcases hp : disk.published d with _ | existing
  · simp only [hp] at h
    cases h
    exact ⟨rfl, by simp⟩
  · simp only [hp] at h
    split_ifs at h with hd
    cases h
    exact ⟨rfl, by simpa using hd⟩

/-- Verifying the reference of a digest reads the artifact back, if it is there and hashes to the
digest. -/
theorem verifyEvidence_of_published [Hashlib] (h : disk.published d = some data)
    (hd : computeSha256 data = d) :
    verifyEvidence root disk (evidenceRefFor d.hex) d.hex = .ok data := by
  simp [verifyEvidence, readEvidenceBytes, h, hd]

theorem verifyEvidence_error [Hashlib] {ref sha : String} {e : PyError}
    (h : verifyEvidence root disk ref sha = .error e) : e.cls = .evidenceError := by
  unfold verifyEvidence at h
  split at h
  · next he =>
    cases h
    exact resolveEvidencePath_error he
  · unfold readEvidenceBytes at h
    split_ifs at h
    · cases h; rfl
    · cases h; rfl
    · split at h
      · next hr =>
        cases h
        split at hr <;> cases hr
        rfl
      · split_ifs at h
        cases h; rfl

end

end PaaRuntime

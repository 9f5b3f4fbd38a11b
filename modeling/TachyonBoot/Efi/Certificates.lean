/-
This file models the walk over the certificate table of an image in
`lib/efi_loader/efi_image_loader.c`.

Each entry gives its own length, and the walk goes on behind it, rounded up to eight
bytes in 32 bits. The length is compared with the headers but never with what is left of
the table. So the walk stays for ever on an entry whose rounded length is zero, and the
parser gets a blob beyond the table when the entry claims to be longer than the table.
Apart from such entries the walk ends and all its blobs are inside.
-/

import TachyonBoot.Library.Records

namespace TachyonBoot.Certificates

open Library

/-! ### The walk -/

/-- The size of `WIN_CERTIFICATE` in front of the certificate. -/
def winCertificateSize : Nat := 8

def guidSize : Nat := 16

def winCertTypePkcsSignedData : UInt16 := 0x0002

def winCertTypeEfiGuid : UInt16 := 0x0EF1

def efiGuidCertTypePkcs7 : List UInt8 :=
  [0x9d, 0xd2, 0xaf, 0x4a, 0xdf, 0x68, 0xee, 0x49, 0x8a, 0xa9, 0x34, 0x7d, 0x37, 0x56, 0x65, 0xa7]

/-- What is handed to `pkcs7_parse_message()`: the offset in the table and the size. -/
structure Blob where
  auth : Nat
  authSize : Nat
deriving DecidableEq

def dwLength (wincerts : List UInt8) (wincert : Nat) : Nat := (uint32At wincerts wincert).toNat

def wCertificateType (wincerts : List UInt8) (wincert : Nat) : UInt16 :=
  uint16At wincerts (wincert + 6)

/-- The body of the loop of `efi_image_authenticate()`: the blob that is parsed, if any, and
whether the loop goes on. Whether it does so with a blob is left to the verification. -/
def authenticateEntry (wincerts : List UInt8) (verify : Blob → Bool) (wincert : Nat) :
    List Blob × Bool :=
  if wincert + winCertificateSize ≥ wincerts.length then ([], false)
  else if dwLength wincerts wincert ≤ winCertificateSize then ([], true)
  else
    let auth := wincert + winCertificateSize
    let authSize := dwLength wincerts wincert - winCertificateSize
    if wCertificateType wincerts wincert = winCertTypeEfiGuid then
      if auth + guidSize ≥ wincerts.length then ([], false)
      else if authSize ≤ guidSize then ([], true)
      else if bytesAt wincerts auth guidSize ≠ efiGuidCertTypePkcs7 then ([], false)
      else
        let blob := ⟨auth + guidSize, authSize - guidSize⟩
        ([blob], verify blob)
    else if wCertificateType wincerts wincert ≠ winCertTypePkcsSignedData then ([], false)
    else
      let blob := ⟨auth, authSize⟩
      ([blob], verify blob)

/-- `ALIGN(wincert->dwLength, 8)`. -/
def alignedLength (wincerts : List UInt8) (wincert : Nat) : Nat :=
  (dwLength wincerts wincert + 7) % 2 ^ 32 / 8 * 8

/-- The loop of `efi_image_authenticate()`: the blobs that it hands to the parser. -/
def authenticateLoop (wincerts : List UInt8) (verify : Blob → Bool) :
    Nat → Nat → Option (List Blob)
  | 0, _ => none
  | fuel + 1, wincert =>
    if wincert < wincerts.length then
      let (blobs, goesOn) := authenticateEntry wincerts verify wincert
      if goesOn then
        (authenticateLoop wincerts verify fuel (wincert + alignedLength wincerts wincert)).map
          (blobs ++ ·)
      else some blobs
    else some []

/-! ### Where it ends -/

section Walk

variable {wincerts : List UInt8} {verify : Blob → Bool} {wincert : Nat}

/-- From an offset the walk ends, and the blobs are slices of the table. -/
def EndsInside (wincerts : List UInt8) (verify : Blob → Bool) (wincert : Nat) : Prop :=
  ∃ fuel blobs, authenticateLoop wincerts verify fuel wincert = some blobs ∧
    ∀ blob ∈ blobs, blob.auth + blob.authSize ≤ wincerts.length

/-- The offsets at which the walk looks for an entry. -/
inductive Reached (wincerts : List UInt8) (verify : Blob → Bool) : Nat → Prop
  | first : Reached wincerts verify 0
  | next {wincert : Nat} (reached : Reached wincerts verify wincert)
      (bound : wincert < wincerts.length)
      (goesOn : (authenticateEntry wincerts verify wincert).2 = true) :
      Reached wincerts verify (wincert + alignedLength wincerts wincert)

/-- The length of an entry lets the walk leave it and keeps its blob in the table. -/
structure FairLength (wincerts : List UInt8) (verify : Blob → Bool) (wincert : Nat) : Prop where
  advances : (authenticateEntry wincerts verify wincert).2 = true →
    dwLength wincerts wincert ≠ 0 ∧ dwLength wincerts wincert ≤ 0xfffffff8
  fits : (authenticateEntry wincerts verify wincert).1 ≠ [] →
    wincert + dwLength wincerts wincert ≤ wincerts.length

theorem blob_end {blob : Blob} (handed : blob ∈ (authenticateEntry wincerts verify wincert).1) :
    blob.auth + blob.authSize = wincert + dwLength wincerts wincert := by
  unfold authenticateEntry at handed
  dsimp only at handed
  split_ifs at handed with short tiny guid cut tinyGuid other unsupported
  all_goals first
    | exact absurd handed List.not_mem_nil
    | obtain rfl := List.mem_singleton.mp handed
      simp only [winCertificateSize, guidSize] at *
      omega

theorem alignedLength_ne_zero_iff :
    alignedLength wincerts wincert ≠ 0 ↔
      dwLength wincerts wincert ≠ 0 ∧ dwLength wincerts wincert ≤ 0xfffffff8 := by
  have bound : dwLength wincerts wincert < 2 ^ 32 := (uint32At wincerts wincert).toNat_lt
  unfold alignedLength
  omega

theorem endsInside_iff (bound : wincert < wincerts.length) :
    EndsInside wincerts verify wincert ↔
      (∀ blob ∈ (authenticateEntry wincerts verify wincert).1,
        blob.auth + blob.authSize ≤ wincerts.length) ∧
      ((authenticateEntry wincerts verify wincert).2 = true →
        EndsInside wincerts verify (wincert + alignedLength wincerts wincert)) := by
  constructor
  · rintro ⟨fuel, blobs, ends, inside⟩
    cases fuel with
    | zero => cases ends
    | succ fuel =>
      rw [authenticateLoop, if_pos bound] at ends
      dsimp only at ends
      split_ifs at ends with goesOn
      · obtain ⟨later, laterEnds, rfl⟩ := Option.map_eq_some_iff.mp ends
        refine ⟨fun blob handed => inside blob (List.mem_append_left _ handed), fun _ => ?_⟩
        exact ⟨fuel, later, laterEnds,
          fun blob handed => inside blob (List.mem_append_right _ handed)⟩
      · obtain rfl := Option.some.inj ends
        exact ⟨inside, fun again => absurd again goesOn⟩
  · rintro ⟨inside, later⟩
    by_cases goesOn : (authenticateEntry wincerts verify wincert).2 = true
    · obtain ⟨fuel, blobs, ends, laterInside⟩ := later goesOn
      refine ⟨fuel + 1, (authenticateEntry wincerts verify wincert).1 ++ blobs, ?_, ?_⟩
      · rw [authenticateLoop, if_pos bound]
        dsimp only
        rw [if_pos goesOn, ends]
        rfl
      · intro blob handed
        exact (List.mem_append.mp handed).elim (inside blob) (laterInside blob)
    · refine ⟨1, _, ?_, inside⟩
      rw [authenticateLoop, if_pos bound]
      exact if_neg goesOn

theorem authenticateLoop_eq_none (bound : wincert < wincerts.length)
    (goesOn : (authenticateEntry wincerts verify wincert).2 = true)
    (stays : alignedLength wincerts wincert = 0) (fuel : Nat) :
    authenticateLoop wincerts verify fuel wincert = none := by
  induction fuel with
  | zero => rfl
  | succ fuel ih =>
    rw [authenticateLoop, if_pos bound]
    dsimp only
    rw [if_pos goesOn, stays, Nat.add_zero, ih]
    rfl

/-- Over entries of fair length the walk comes nearer to the end of the table. -/
theorem Reached.endsInside
    (fair : ∀ wincert, Reached wincerts verify wincert → wincert < wincerts.length →
      FairLength wincerts verify wincert)
    {wincert : Nat} (reached : Reached wincerts verify wincert) :
    EndsInside wincerts verify wincert := by
  by_cases bound : wincert < wincerts.length
  · have entry := fair wincert reached bound
    refine (endsInside_iff bound).mpr ⟨fun blob handed => ?_, fun goesOn => ?_⟩
    · rw [blob_end handed]
      exact entry.fits (List.ne_nil_of_mem handed)
    · have advances := alignedLength_ne_zero_iff.mpr (entry.advances goesOn)
      exact Reached.endsInside fair (reached.next bound goesOn)
  · exact ⟨1, [], if_neg bound, fun blob handed => absurd handed List.not_mem_nil⟩
termination_by wincerts.length - wincert

end Walk

/-- The walk over a certificate table ends with all blobs inside the table if and only if every
entry that it reaches has a fair length. -/
theorem authenticateLoop_inside_iff (wincerts : List UInt8) (verify : Blob → Bool) :
    EndsInside wincerts verify 0 ↔
      ∀ wincert, Reached wincerts verify wincert → wincert < wincerts.length →
        FairLength wincerts verify wincert := by
  refine ⟨fun ends wincert reached bound => ?_, fun fair => Reached.endsInside fair .first⟩
  have endsHere : EndsInside wincerts verify wincert := by
    clear bound
    induction reached with
    | first => exact ends
    | next _ bound goesOn ih =>
      exact ((endsInside_iff bound).mp ih).2 goesOn
  constructor
  · intro goesOn
    refine alignedLength_ne_zero_iff.mp fun stays => ?_
    obtain ⟨fuel, blobs, loop, -⟩ := endsHere
    rw [authenticateLoop_eq_none bound goesOn stays] at loop
    cases loop
  · intro handed
    obtain ⟨blob, member⟩ := List.exists_mem_of_ne_nil _ handed
    rw [← blob_end member]
    exact ((endsInside_iff bound).mp endsHere).1 blob member

/-- A table of zeros holds the walk for ever, and an entry of 256 bytes in a table of 24 hands out
what is behind the table. -/
theorem authenticateLoop_stays_or_leaves :
    ¬EndsInside (List.replicate 24 0) (fun _ => true) 0 ∧
      ¬EndsInside ([0, 1, 0, 0, 0, 2, 2, 0] ++ List.replicate 16 0) (fun _ => true) 0 := by
  constructor
  · rintro ⟨fuel, blobs, ends, -⟩
    rw [authenticateLoop_eq_none (by decide) (by decide +kernel) (by decide +kernel)] at ends
    cases ends
  · intro ends
    have inside := ((endsInside_iff (by decide)).mp ends).1 ⟨8, 248⟩ (by decide +kernel)
    exact absurd inside (by decide)

end TachyonBoot.Certificates

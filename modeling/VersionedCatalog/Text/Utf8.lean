import VersionedCatalog.Bytes

/-! # Text as bytes

A text is stored as its UTF-8 bytes. Reading them back accepts well-formed UTF-8 only, so
`decode?` is a left inverse of `encode` and refuses everything else.
-/

namespace VersionedCatalog.Utf8

def encode (s : String) : Bytes := s.toByteArray.data.toList

def decode? (bytes : Bytes) : Option String := String.fromUTF8? ⟨bytes.toArray⟩

theorem decode?_encode (s : String) : decode? (encode s) = some s := by
  have hBytes : (⟨(s.toByteArray.data.toList).toArray⟩ : ByteArray) = s.toByteArray := by simp
  simp only [decode?, encode, hBytes, String.fromUTF8?]
  rw [dif_pos s.isValidUTF8]
  rfl

theorem encode_of_decode? {bytes : Bytes} {s : String} (hDecode : decode? bytes = some s) :
    encode s = bytes := by
  unfold decode? String.fromUTF8? at hDecode
  split at hDecode
  next hValid =>
    cases hDecode
    simp [encode, String.fromUTF8]
  next => cases hDecode

theorem encode_injective {s t : String} (hSame : encode s = encode t) : s = t := by
  have hDecode := decode?_encode s
  rw [hSame, decode?_encode t] at hDecode
  exact (Option.some.inj hDecode).symm

end VersionedCatalog.Utf8

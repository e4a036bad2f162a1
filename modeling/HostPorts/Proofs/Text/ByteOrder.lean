import Mathlib.Data.String.Basic

/-!
Texts in the order of their code points and in the order of their UTF-8 bytes: it is the same order
(`lt_iff_bytes_lt`). The encodings of two characters differ before either ends, in favour of the
greater one.
-/
namespace HostPorts.Text

def bytes (s : String) : List UInt8 := s.toUTF8.data.toList

theorem bytes_eq (s : String) : bytes s = s.toList.flatMap String.utf8EncodeChar := by
  have encoded : s.toUTF8 = s.toList.utf8Encode := by
    rw [← String.toByteArray_ofList, String.ofList_toList]
    rfl
  rw [bytes, encoded, List.utf8Encode, List.data_toByteArray]

theorem ofNat_lt_ofNat {a b : Nat} (left : a < 256) (right : b < 256) :
    UInt8.ofNat a < UInt8.ofNat b ↔ a < b := by
  rw [UInt8.lt_iff_toNat_lt, UInt8.toNat_ofNat_of_lt' left, UInt8.toNat_ofNat_of_lt' right]

theorem ofNat_eq_ofNat {a b : Nat} (left : a < 256) (right : b < 256) :
    UInt8.ofNat a = UInt8.ofNat b ↔ a = b := by
  rw [← UInt8.toNat_inj, UInt8.toNat_ofNat_of_lt' left, UInt8.toNat_ofNat_of_lt' right]

theorem toNat_val_lt (c : Char) : c.val.toNat < 0x110000 := by
  rcases c.valid with low | ⟨_, high⟩
  · exact Nat.lt_trans low (by decide)
  · exact high

theorem encode_lt_encode {c d : Char} (lt : c < d) (rest rest' : List UInt8) :
    String.utf8EncodeChar c ++ rest < String.utf8EncodeChar d ++ rest' := by
  have below : c.val.toNat < d.val.toNat := UInt32.lt_iff_toNat_lt.mp (Char.lt_def.mp lt)
  have bound := toNat_val_lt d
  unfold String.utf8EncodeChar
  generalize c.val.toNat = m at below
  generalize d.val.toNat = n at below bound
  dsimp only
  -- each byte after the first holds six bits
  have sixes (x : Nat) : x / 4096 = x / 64 / 64 ∧ x / 262144 = x / 64 / 64 / 64 := by omega
  split_ifs <;>
    simp (disch := omega) only [List.cons_append, List.nil_append, List.cons_lt_cons_iff,
      ofNat_lt_ofNat, ofNat_eq_ofNat, sixes] <;>
    omega

theorem flatMap_lt {cs ds : List Char} (lt : cs < ds) :
    cs.flatMap String.utf8EncodeChar < ds.flatMap String.utf8EncodeChar := by
  induction cs generalizing ds with
  | nil =>
    cases ds with
    | nil => exact absurd lt (List.lt_irrefl _)
    | cons d ds =>
      obtain ⟨b, bs, is⟩ := List.exists_cons_of_ne_nil String.utf8EncodeChar_ne_nil
      rw [List.flatMap_nil, List.flatMap_cons, is]
      exact List.nil_lt_cons b _
  | cons c cs ih =>
    cases ds with
    | nil => exact absurd lt (List.not_lt_nil _)
    | cons d ds =>
      rw [List.flatMap_cons, List.flatMap_cons]
      rcases List.cons_lt_cons_iff.mp lt with less | ⟨rfl, later⟩
      · exact encode_lt_encode less _ _
      · exact List.append_left_lt (ih later)

theorem lt_iff_bytes_lt (s t : String) : s < t ↔ bytes s < bytes t := by
  rw [bytes_eq, bytes_eq]
  constructor
  · exact fun lt => flatMap_lt (String.lt_iff.mp lt)
  · intro lt
    rcases lt_trichotomy s t with less | rfl | greater
    · exact less
    · exact absurd lt (List.lt_irrefl _)
    · exact absurd (flatMap_lt (String.lt_iff.mp greater)) (List.lt_asymm lt)

end HostPorts.Text

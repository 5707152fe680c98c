import Mathlib.Data.Nat.Notation

/-! Texts as the bytes of their UTF-8 encoding, for programs that cut them at offsets of bytes. A
cut may fall inside a character; a separator that is one byte stands in no longer character. -/

namespace Utf8

/-- The bytes of a text. -/
def bytes (s : String) : List UInt8 := s.toList.flatMap String.utf8EncodeChar

/-- The text of a list of bytes. Where they encode none, each byte is taken for a character. -/
def text (b : List UInt8) : String :=
  match b.toByteArray.utf8Decode? with
  | some s => String.ofList s.toList
  | none => String.ofList (b.map fun x => Char.ofNat x.toNat)

@[simp] theorem bytes_append (s t : String) : bytes (s ++ t) = bytes s ++ bytes t := by
  simp [bytes]

@[simp] theorem text_bytes (s : String) : text (bytes s) = s := by
  have hdecode : (bytes s).toByteArray.utf8Decode? = some s.toList.toArray :=
    List.utf8Decode?_utf8Encode
  rw [text, hdecode]
  exact String.ofList_toList

theorem utf8EncodeChar_ne_nil (c : Char) : String.utf8EncodeChar c ≠ [] := by
  intro h
  have hlength := String.length_utf8EncodeChar c
  rw [h] at hlength
  exact absurd hlength (Nat.ne_of_lt c.utf8Size_pos)

theorem bytes_eq_nil_iff {s : String} : bytes s = [] ↔ s.toList = [] := by
  rw [bytes, List.flatMap_eq_nil_iff]
  constructor
  · intro h
    exact List.eq_nil_iff_forall_not_mem.mpr fun c hc => utf8EncodeChar_ne_nil c (h c hc)
  · intro h c hc
    rw [h] at hc
    cases hc

theorem low_ne_high {m n : ℕ} (hm : m < 128) (hn : 128 ≤ n % 256) :
    UInt8.ofNat m ≠ UInt8.ofNat n := by
  intro heq
  have hnat := congrArg UInt8.toNat heq
  rw [UInt8.toNat_ofNat', UInt8.toNat_ofNat'] at hnat
  omega

/-- A byte below 128 stands for the character of that number, and in no other. -/
theorem mem_utf8EncodeChar {c d : Char} (hc : c.toNat < 128) :
    UInt8.ofNat c.toNat ∈ String.utf8EncodeChar d ↔ d = c := by
  have hval : d.val.toNat = d.toNat := rfl
  rw [String.utf8EncodeChar]
  simp only [hval]
  by_cases hd : d.toNat ≤ 127
  · rw [if_pos hd, List.mem_singleton]
    constructor
    · intro heq
      have hnat := congrArg UInt8.toNat heq
      rw [UInt8.toNat_ofNat', UInt8.toNat_ofNat'] at hnat
      exact Char.toNat_inj.mp (by omega)
    · intro heq
      rw [heq]
  · have hne : d ≠ c := by
      intro heq
      rw [heq] at hd
      omega
    rw [if_neg hd]
    refine iff_of_false ?_ hne
    -- the lead byte and the bytes after it are 128 or more
    have h2 := low_ne_high (n := d.toNat / 64 % 32 + 192) hc (by omega)
    have h3 := low_ne_high (n := d.toNat / 4096 % 16 + 224) hc (by omega)
    have h4 := low_ne_high (n := d.toNat / 262144 % 8 + 240) hc (by omega)
    have hnext (n : ℕ) := low_ne_high (n := n % 64 + 128) hc (by omega)
    split
    · simp only [List.mem_cons, h2, hnext, List.not_mem_nil, or_self, not_false_eq_true]
    · split
      · simp only [List.mem_cons, h3, hnext, List.not_mem_nil, or_self, not_false_eq_true]
      · simp only [List.mem_cons, h4, hnext, List.not_mem_nil, or_self, not_false_eq_true]

theorem mem_bytes {c : Char} (hc : c.toNat < 128) {s : String} :
    UInt8.ofNat c.toNat ∈ bytes s ↔ c ∈ s.toList := by
  simp [bytes, mem_utf8EncodeChar hc]

end Utf8

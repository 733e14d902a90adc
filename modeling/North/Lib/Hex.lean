import North.Lib.Digits

/-! Bytes as texts with two lower-case hexadecimal digits for each, and the reader that
gives the bytes back. -/
namespace North
namespace Hex

open Digits

def byteText (b : UInt8) : List Char := [digitChar (b.toNat/16),digitChar (b.toNat%16)]

def text (bytes : List UInt8) : List Char := bytes.flatMap byteText

/-- The byte of each pair of digits. -/
def bytes : List Char → List UInt8
  | high::low::rest => UInt8.ofNat (digitValue high*16+digitValue low)::bytes rest
  | _ => []

@[simp] theorem text_nil : text [] = [] := rfl

@[simp] theorem text_cons (b : UInt8) (bs : List UInt8) :
    text (b::bs) = digitChar (b.toNat/16)::digitChar (b.toNat%16)::text bs := rfl

theorem bytes_text (bs : List UInt8) : bytes (text bs) = bs := by
  induction bs with
  | nil => rfl
  | cons b bs ih =>
    have hb : b.toNat < 256 := b.toNat_lt
    have hvalue : b.toNat/16*16+b.toNat%16 = b.toNat := Nat.div_add_mod' b.toNat 16
    rw [text_cons,bytes,ih,digitValue_digitChar (by omega),digitValue_digitChar (by omega),hvalue,
      UInt8.ofNat_toNat]

theorem text_injective : Function.Injective text :=
  Function.LeftInverse.injective bytes_text

theorem mem_text {bs : List UInt8} {c : Char} (hc : c ∈ text bs) : isDigit 16 c = true := by
  obtain ⟨b,-,hb⟩ := List.mem_flatMap.mp hc
  have hlt : b.toNat < 256 := b.toNat_lt
  simp only [byteText,List.mem_cons,List.not_mem_nil,or_false] at hb
  rcases hb with rfl | rfl
  · rw [isDigit,digitValue_digitChar (by omega)]
    exact decide_eq_true (by omega)
  · rw [isDigit,digitValue_digitChar (by omega)]
    exact decide_eq_true (by omega)

theorem length_text (bs : List UInt8) : (text bs).length = 2*bs.length := by
  induction bs with
  | nil => rfl
  | cons b bs ih =>
    rw [text_cons,List.length_cons,List.length_cons,List.length_cons,ih]
    omega

/-- A character without a digit's value is in no such text. -/
theorem not_mem_text {c : Char} (hc : isDigit 16 c = false) (bs : List UInt8) : c ∉ text bs := by
  intro hmem
  rw [mem_text hmem] at hc
  cases hc

end Hex
end North

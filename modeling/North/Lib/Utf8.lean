import Mathlib.Data.List.Basic

/-! Reading bytes as text when they may not be UTF-8. The longest start of a character that is
never completed gives one replacement character. -/
namespace North
namespace Utf8

/-- The bits of a character so far, and the ranges of the bytes that it still needs. -/
structure Pending where
  bits : ℕ
  needs : List (UInt8 × UInt8)
  deriving DecidableEq, Repr

def replacement : Char := Char.ofNat 0xFFFD

/-- The range of a byte that goes on with a character. -/
def further : UInt8 × UInt8 := (0x80,0xBF)

/-- What a byte gives that does not go on with a character. -/
def start (b : UInt8) : List Char × Option Pending :=
  if b < 0x80 then ([Char.ofNat b.toNat],none)
  else if 0xC2 ≤ b && b ≤ 0xDF then ([],some ⟨b.toNat-0xC0,[further]⟩)
  else if b == 0xE0 then ([],some ⟨0,[(0xA0,0xBF),further]⟩)
  else if b == 0xED then ([],some ⟨0xD,[(0x80,0x9F),further]⟩)
  else if 0xE1 ≤ b && b ≤ 0xEF then ([],some ⟨b.toNat-0xE0,[further,further]⟩)
  else if b == 0xF0 then ([],some ⟨0,[(0x90,0xBF),further,further]⟩)
  else if b == 0xF4 then ([],some ⟨4,[(0x80,0x8F),further,further]⟩)
  else if 0xF1 ≤ b && b ≤ 0xF3 then ([],some ⟨b.toNat-0xF0,[further,further,further]⟩)
  else ([replacement],none)

/-- What the next byte gives. -/
def next (pending : Option Pending) (b : UInt8) : List Char × Option Pending :=
  match pending with
  | none => start b
  | some ⟨bits,needs⟩ =>
    match needs with
    | (low,high)::needs =>
      if low ≤ b && b ≤ high then
        let bits := bits*64+(b.toNat-0x80)
        if needs.isEmpty then ([Char.ofNat bits],none) else ([],some ⟨bits,needs⟩)
      else (replacement::(start b).1,(start b).2)
    | [] => start b

def decode : Option Pending → List UInt8 → List Char
  | none, [] => []
  | some _, [] => [replacement]
  | pending, b::rest => (next pending b).1 ++ decode (next pending b).2 rest

/-- `String::from_utf8_lossy`. -/
def lossy (bytes : List UInt8) : String := String.ofList (decode none bytes)

example : decode none [0x61,0xE2,0x82,0xAC,0xC3,0xA9] = ['a','€','é'] := by decide

example : decode none [0xF0,0x9F,0x61,0xED,0xA0,0x80] =
    [replacement,'a',replacement,replacement,replacement] := by decide

end Utf8
end North

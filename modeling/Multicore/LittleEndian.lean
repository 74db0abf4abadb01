/-!
# Little-endian bytes

Halfwords and words as sequences of bytes, the least significant byte first. `wordsOfBytes`
cuts a sequence of bytes into words and fills the last one up with zeros.
-/

namespace Multicore

/-- The halfword with the given bytes, low byte first. -/
def halfOfBytes (b₀ b₁ : UInt8) : UInt16 := b₀.toUInt16 + b₁.toUInt16 * 256

/-- The word with the given halfwords, low half first. -/
def wordOfHalves (lo hi : UInt16) : UInt32 := lo.toUInt32 + hi.toUInt32 * 65536

/-- The word with the given bytes, low byte first. -/
def wordOfBytes (b₀ b₁ b₂ b₃ : UInt8) : UInt32 :=
  wordOfHalves (halfOfBytes b₀ b₁) (halfOfBytes b₂ b₃)

/-- The low byte of a halfword. -/
def lowByte (h : UInt16) : UInt8 := h.toUInt8

/-- The high byte of a halfword. -/
def highByte (h : UInt16) : UInt8 := (h / 256).toUInt8

/-- The low half of a word. -/
def lowHalf (w : UInt32) : UInt16 := w.toUInt16

/-- The high half of a word. -/
def highHalf (w : UInt32) : UInt16 := (w / 65536).toUInt16

/-- The bytes of a halfword. -/
def bytesOfHalf (h : UInt16) : List UInt8 := [lowByte h, highByte h]

/-- The bytes of a word. -/
def bytesOfWord (w : UInt32) : List UInt8 := bytesOfHalf (lowHalf w) ++ bytesOfHalf (highHalf w)

/-- The bytes of a list of words, in order. -/
def bytesOfWords (words : List UInt32) : List UInt8 := words.flatMap bytesOfWord

/-- The words held by a sequence of bytes. A last group of fewer than four bytes is filled up
with zeros. -/
def wordsOfBytes : List UInt8 → List UInt32
  | [] => []
  | [b₀] => [wordOfBytes b₀ 0 0 0]
  | [b₀, b₁] => [wordOfBytes b₀ b₁ 0 0]
  | [b₀, b₁, b₂] => [wordOfBytes b₀ b₁ b₂ 0]
  | b₀ :: b₁ :: b₂ :: b₃ :: rest => wordOfBytes b₀ b₁ b₂ b₃ :: wordsOfBytes rest

/-- The number of a halfword from those of its bytes. -/
theorem toNat_halfOfBytes (b₀ b₁ : UInt8) :
    (halfOfBytes b₀ b₁).toNat = b₀.toNat + b₁.toNat * 256 := by
  have := b₀.toNat_lt
  have := b₁.toNat_lt
  simp [halfOfBytes]
  omega

/-- The number of a word from those of its halves. -/
theorem toNat_wordOfHalves (lo hi : UInt16) :
    (wordOfHalves lo hi).toNat = lo.toNat + hi.toNat * 65536 := by
  have := lo.toNat_lt
  have := hi.toNat_lt
  simp [wordOfHalves]
  omega

/-- The low byte of a halfword built from two bytes is the first one. -/
@[simp] theorem lowByte_halfOfBytes (b₀ b₁ : UInt8) : lowByte (halfOfBytes b₀ b₁) = b₀ := by
  apply UInt8.toNat_inj.1
  have := b₀.toNat_lt
  simp [lowByte, toNat_halfOfBytes]

/-- The high byte of a halfword built from two bytes is the second one. -/
@[simp] theorem highByte_halfOfBytes (b₀ b₁ : UInt8) : highByte (halfOfBytes b₀ b₁) = b₁ := by
  apply UInt8.toNat_inj.1
  have := b₀.toNat_lt
  have := b₁.toNat_lt
  simp [highByte, toNat_halfOfBytes]
  omega

/-- A halfword is built from its own bytes. -/
@[simp] theorem halfOfBytes_bytes (h : UInt16) : halfOfBytes (lowByte h) (highByte h) = h := by
  apply UInt16.toNat_inj.1
  have := h.toNat_lt
  simp [toNat_halfOfBytes, lowByte, highByte]
  omega

/-- The low half of a word built from two halves is the first one. -/
@[simp] theorem lowHalf_wordOfHalves (lo hi : UInt16) : lowHalf (wordOfHalves lo hi) = lo := by
  apply UInt16.toNat_inj.1
  have := lo.toNat_lt
  simp [lowHalf, toNat_wordOfHalves]

/-- The high half of a word built from two halves is the second one. -/
@[simp] theorem highHalf_wordOfHalves (lo hi : UInt16) : highHalf (wordOfHalves lo hi) = hi := by
  apply UInt16.toNat_inj.1
  have := lo.toNat_lt
  have := hi.toNat_lt
  simp [highHalf, toNat_wordOfHalves]
  omega

/-- A word is built from its own halves. -/
@[simp] theorem wordOfHalves_halves (w : UInt32) :
    wordOfHalves (lowHalf w) (highHalf w) = w := by
  apply UInt32.toNat_inj.1
  have := w.toNat_lt
  simp [toNat_wordOfHalves, lowHalf, highHalf]
  omega

/-- The words of the bytes of a list of words are the words. -/
theorem wordsOfBytes_bytesOfWords (words : List UInt32) :
    wordsOfBytes (bytesOfWords words) = words := by
  induction words with
  | nil => rfl
  | cons w rest ih =>
    have h : bytesOfWords (w :: rest) = lowByte (lowHalf w) :: highByte (lowHalf w) ::
        lowByte (highHalf w) :: highByte (highHalf w) :: bytesOfWords rest := rfl
    rw [h, wordsOfBytes, ih]
    simp [wordOfBytes]

end Multicore

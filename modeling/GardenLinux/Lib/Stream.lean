import Mathlib.Data.List.Basic

/-!
# Streams of bytes

What is computed of a text that comes in parts: hashes and checksums that are updated part by
part, compressors that give their output part by part, and files that are written at a position.

What is proved here:

* `Incremental.feed_eq` — a text that is fed in parts has the result of the whole text;
* `crc32_append` — so has the checksum that `zlib.crc32` continues;
* `TempFile.write_ofContent` — what is written at the end of a file is appended to it.
-/

namespace Stream

abbrev Bytes := List UInt8

/-! ## Hashes -/

/-- A function of texts that can be fed in parts. -/
structure Incremental (ο : Type) where
  State : Type
  init : State
  update : State → Bytes → State
  result : State → ο
  update_nil : ∀ s, update s [] = s
  update_append : ∀ s a b, update (update s a) b = update s (a ++ b)

namespace Incremental

variable {ο : Type} (f : Incremental ο)

/-- The result for a text that is fed at once. -/
def of (text : Bytes) : ο := f.result (f.update f.init text)

/-- The parts do not matter. -/
theorem feed_eq (s : f.State) (parts : List Bytes) :
    parts.foldl f.update s = f.update s parts.flatten := by
  induction parts generalizing s with
  | nil => exact (f.update_nil s).symm
  | cons part parts ih =>
    show parts.foldl f.update (f.update s part) = _
    rw [ih, f.update_append]
    rfl

/-- Any function of the whole text, fed by collecting the parts. -/
def collecting (g : Bytes → ο) : Incremental ο where
  State := Bytes
  init := []
  update s part := s ++ part
  result := g
  update_nil := List.append_nil
  update_append := List.append_assoc

end Incremental

/-! ## Checksums -/

/-- One bit of the CRC-32 of `zlib`. -/
def crcBit (crc : UInt32) : UInt32 :=
  if crc &&& 1 = 1 then (crc >>> 1) ^^^ 0xEDB88320 else crc >>> 1

def crcByte (crc : UInt32) (byte : UInt8) : UInt32 :=
  crcBit (crcBit (crcBit (crcBit (crcBit (crcBit (crcBit (crcBit (crc ^^^ byte.toUInt32))))))))

/-- `zlib.crc32(data, value)`. -/
def crc32 (data : Bytes) (value : UInt32) : UInt32 :=
  data.foldl crcByte (value ^^^ 0xFFFFFFFF) ^^^ 0xFFFFFFFF

theorem crc32_nil (value : UInt32) : crc32 [] value = value := by
  show (value ^^^ 0xFFFFFFFF) ^^^ 0xFFFFFFFF = value
  rw [UInt32.xor_assoc, UInt32.xor_self, UInt32.xor_zero]

/-- A checksum is continued where it was left. -/
theorem crc32_append (a b : Bytes) (value : UInt32) :
    crc32 b (crc32 a value) = crc32 (a ++ b) value := by
  have hundone : crc32 a value ^^^ 0xFFFFFFFF = a.foldl crcByte (value ^^^ 0xFFFFFFFF) := by
    show (a.foldl crcByte (value ^^^ 0xFFFFFFFF) ^^^ 0xFFFFFFFF) ^^^ 0xFFFFFFFF = _
    rw [UInt32.xor_assoc, UInt32.xor_self, UInt32.xor_zero]
  show b.foldl crcByte (crc32 a value ^^^ 0xFFFFFFFF) ^^^ 0xFFFFFFFF = _
  rw [hundone, ← List.foldl_append]
  rfl

example : crc32 "123456789".toUTF8.data.toList 0 = 0xCBF43926 := by decide +kernel

/-! ## Compressors -/

/-- An object that compresses a text part by part. -/
structure Compressor where
  State : Type
  init : State
  compress : State → Bytes → State × Bytes
  flush : State → Bytes

namespace Compressor

/-- The state after some parts, and what was given out for each of them. -/
def outputs (c : Compressor) : c.State → List Bytes → c.State × List Bytes
  | s, [] => (s, [])
  | s, part :: parts =>
    let rest := outputs c (c.compress s part).1 parts
    (rest.1, (c.compress s part).2 :: rest.2)

/-- All that is given out for a text in parts: the compressed parts, and the remainder. -/
def compressed (c : Compressor) (parts : List Bytes) : Bytes :=
  (c.outputs c.init parts).2.flatten ++ c.flush (c.outputs c.init parts).1

end Compressor

/-! ## Files -/

/-- An open file. -/
structure TempFile where
  content : Bytes
  position : ℕ
  deriving DecidableEq, Repr

namespace TempFile

def empty : TempFile := ⟨[], 0⟩

def write (file : TempFile) (data : Bytes) : TempFile where
  content := file.content.take file.position ++ data ++
    file.content.drop (file.position + data.length)
  position := file.position + data.length

def seek (file : TempFile) (position : ℕ) : TempFile := { file with position }

/-- `file.read()`. -/
def read (file : TempFile) : Bytes := file.content.drop file.position

/-- A file that is written from its beginning to its end. -/
def ofContent (content : Bytes) : TempFile := ⟨content, content.length⟩

/-- At the end of a file, what is written is appended. -/
theorem write_ofContent (content data : Bytes) :
    (ofContent content).write data = ofContent (content ++ data) := by
  have hdrop : content.drop (content.length + data.length) = [] :=
    List.drop_eq_nil_of_le (Nat.le_add_right _ _)
  simp [ofContent, write, hdrop]

end TempFile

end Stream

import SealedColumns.Cipher.Block

/-!
# The AES block cipher

AES with keys of 16, 24 or 32 bytes, on blocks whose words are the columns of the cipher's state. A
round replaces every byte through the S-box, rotates the rows, mixes each column and adds a round
key; the last round leaves the mixing out. Mixing works on a whole column at once: it is the column
doubled in the field of 256 elements, combined with the column's three rotations.
-/

namespace SealedColumns.Aes

/-- The S-box as a table. -/
def sBoxTable : ByteArray :=
  ⟨#[0x63, 0x7c, 0x77, 0x7b, 0xf2, 0x6b, 0x6f, 0xc5, 0x30, 0x01, 0x67, 0x2b, 0xfe, 0xd7, 0xab, 0x76,
    0xca, 0x82, 0xc9, 0x7d, 0xfa, 0x59, 0x47, 0xf0, 0xad, 0xd4, 0xa2, 0xaf, 0x9c, 0xa4, 0x72, 0xc0,
    0xb7, 0xfd, 0x93, 0x26, 0x36, 0x3f, 0xf7, 0xcc, 0x34, 0xa5, 0xe5, 0xf1, 0x71, 0xd8, 0x31, 0x15,
    0x04, 0xc7, 0x23, 0xc3, 0x18, 0x96, 0x05, 0x9a, 0x07, 0x12, 0x80, 0xe2, 0xeb, 0x27, 0xb2, 0x75,
    0x09, 0x83, 0x2c, 0x1a, 0x1b, 0x6e, 0x5a, 0xa0, 0x52, 0x3b, 0xd6, 0xb3, 0x29, 0xe3, 0x2f, 0x84,
    0x53, 0xd1, 0x00, 0xed, 0x20, 0xfc, 0xb1, 0x5b, 0x6a, 0xcb, 0xbe, 0x39, 0x4a, 0x4c, 0x58, 0xcf,
    0xd0, 0xef, 0xaa, 0xfb, 0x43, 0x4d, 0x33, 0x85, 0x45, 0xf9, 0x02, 0x7f, 0x50, 0x3c, 0x9f, 0xa8,
    0x51, 0xa3, 0x40, 0x8f, 0x92, 0x9d, 0x38, 0xf5, 0xbc, 0xb6, 0xda, 0x21, 0x10, 0xff, 0xf3, 0xd2,
    0xcd, 0x0c, 0x13, 0xec, 0x5f, 0x97, 0x44, 0x17, 0xc4, 0xa7, 0x7e, 0x3d, 0x64, 0x5d, 0x19, 0x73,
    0x60, 0x81, 0x4f, 0xdc, 0x22, 0x2a, 0x90, 0x88, 0x46, 0xee, 0xb8, 0x14, 0xde, 0x5e, 0x0b, 0xdb,
    0xe0, 0x32, 0x3a, 0x0a, 0x49, 0x06, 0x24, 0x5c, 0xc2, 0xd3, 0xac, 0x62, 0x91, 0x95, 0xe4, 0x79,
    0xe7, 0xc8, 0x37, 0x6d, 0x8d, 0xd5, 0x4e, 0xa9, 0x6c, 0x56, 0xf4, 0xea, 0x65, 0x7a, 0xae, 0x08,
    0xba, 0x78, 0x25, 0x2e, 0x1c, 0xa6, 0xb4, 0xc6, 0xe8, 0xdd, 0x74, 0x1f, 0x4b, 0xbd, 0x8b, 0x8a,
    0x70, 0x3e, 0xb5, 0x66, 0x48, 0x03, 0xf6, 0x0e, 0x61, 0x35, 0x57, 0xb9, 0x86, 0xc1, 0x1d, 0x9e,
    0xe1, 0xf8, 0x98, 0x11, 0x69, 0xd9, 0x8e, 0x94, 0x9b, 0x1e, 0x87, 0xe9, 0xce, 0x55, 0x28, 0xdf,
    0x8c, 0xa1, 0x89, 0x0d, 0xbf, 0xe6, 0x42, 0x68, 0x41, 0x99, 0x2d, 0x0f, 0xb0, 0x54, 0xbb, 0x16]⟩

set_option maxRecDepth 4096 in
theorem size_sBoxTable : sBoxTable.size = 256 := rfl

/-- The substitution of a byte. -/
def sBox (b : UInt8) : UInt8 :=
  have inTable : b.toNat < sBoxTable.size := size_sBoxTable ▸ b.toNat_lt
  sBoxTable[b.toNat]

/-- The substitution of every byte of a word. -/
def subWord (w : UInt32) : UInt32 :=
  Block.wordOfBytes (sBox (w >>> 24).toUInt8) (sBox (w >>> 16).toUInt8) (sBox (w >>> 8).toUInt8)
    (sBox w.toUInt8)

/-- The word rotated by one byte towards the top. -/
def rotWord (w : UInt32) : UInt32 :=
  (w <<< 8) ||| (w >>> 24)

/-- Every byte of a word doubled in the field of 256 elements. -/
def doubleWord (w : UInt32) : UInt32 :=
  let carries := (w >>> 7) &&& 0x01010101
  ((w &&& 0x7f7f7f7f) <<< 1) ^^^ carries ^^^ (carries <<< 1) ^^^ (carries <<< 3) ^^^ (carries <<< 4)

/-- One column multiplied by the mixing matrix. -/
def mixWord (w : UInt32) : UInt32 :=
  let r := rotWord w
  doubleWord (w ^^^ r) ^^^ r ^^^ rotWord r ^^^ rotWord (rotWord r)

/-- All columns multiplied by the mixing matrix. -/
def mixColumns (s : Block) : Block :=
  ⟨mixWord s.w0, mixWord s.w1, mixWord s.w2, mixWord s.w3⟩

/-- The substituted column whose rows come from four columns in turn. -/
def subDiagonal (a b c d : UInt32) : UInt32 :=
  Block.wordOfBytes (sBox (a >>> 24).toUInt8) (sBox (b >>> 16).toUInt8) (sBox (c >>> 8).toUInt8)
    (sBox d.toUInt8)

/-- Substitution of all bytes, with row `i` rotated by `i` columns. -/
def subShift (s : Block) : Block :=
  ⟨subDiagonal s.w0 s.w1 s.w2 s.w3, subDiagonal s.w1 s.w2 s.w3 s.w0,
    subDiagonal s.w2 s.w3 s.w0 s.w1, subDiagonal s.w3 s.w0 s.w1 s.w2⟩

/-- The rounds of a list of round keys; the last one does not mix. -/
def rounds : List Block → Block → Block
  | [], s => s
  | [last], s => subShift s ^^^ last
  | key :: rest, s => rounds rest (mixColumns (subShift s) ^^^ key)

/-- Powers of two in the field of 256 elements, in the top byte of a word. -/
def roundConstant : Nat → UInt32
  | 0 => 0x01000000
  | n + 1 => doubleWord (roundConstant n)

/-- What is added to word `i - keyWords` of the key schedule to give word `i`, where
`previous` is word `i - 1`. -/
def scheduleStep (keyWords i : Nat) (previous : UInt32) : UInt32 :=
  if i % keyWords = 0 then subWord (rotWord previous) ^^^ roundConstant (i / keyWords - 1)
  else if 6 < keyWords ∧ i % keyWords = 4 then subWord previous
  else previous

/-- The key schedule up to `more` words after those of `ws`. -/
def extendSchedule (keyWords : Nat) : (more : Nat) → (ws : Array UInt32) → Array UInt32
  | 0, ws => ws
  | more + 1, ws =>
    let i := ws.size
    let next := ws.getD (i - keyWords) 0 ^^^ scheduleStep keyWords i (ws.getD (i - 1) 0)
    extendSchedule keyWords more (ws.push next)

/-- The words of a key. -/
def keyWords (key : Bytes) : Array UInt32 :=
  ((List.range (key.length / 4)).map fun i => Block.frontWord (key.drop (4 * i))).toArray

/-- The number of rounds under a key of so many words. -/
def roundCount (keyWords : Nat) : Nat :=
  keyWords + 6

/-- The round keys of a key: one to start with and one for each round. -/
def roundKeys (key : Bytes) : List Block :=
  let n := key.length / 4
  let ws := extendSchedule n (4 * (roundCount n + 1) - n) (keyWords key)
  (List.range (roundCount n + 1)).map fun r =>
    ⟨ws.getD (4 * r) 0, ws.getD (4 * r + 1) 0, ws.getD (4 * r + 2) 0, ws.getD (4 * r + 3) 0⟩

/-- Encryption of a block under a list of round keys. -/
def encryptWith : List Block → Block → Block
  | [], b => b
  | first :: rest, b => rounds rest (b ^^^ first)

/-- The block function of a key. The round keys are computed once. -/
def cipher (key : Bytes) : Block → Block :=
  let keys := roundKeys key
  encryptWith keys

end SealedColumns.Aes

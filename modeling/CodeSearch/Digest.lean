/-!
# Content digests

The digest of a text is BLAKE3 of its UTF-8 bytes, and a fragment without a name
goes by the first sixteen hexadecimal digits of it. The input is cut into chunks
of 1024 bytes, each chunk into blocks of 64, and the chunks are the leaves of a
binary tree whose left half is always the largest full one.
-/
namespace CodeSearch.Digest

/-- Eight words that stand for all input below a node of the tree. -/
abbrev Chaining := Vector UInt32 8

/-- The sixteen words of a block. -/
abbrev Block := Vector UInt32 16

def initial : Chaining :=
  #v[0x6A09E667, 0xBB67AE85, 0x3C6EF372, 0xA54FF53A, 0x510E527F, 0x9B05688C, 0x1F83D9AB, 0x5BE0CD19]

def chunkStart : UInt32 := 1
def chunkEnd : UInt32 := 2
def parent : UInt32 := 4
def root : UInt32 := 8

def rotateRight (w : UInt32) (n : UInt32) : UInt32 :=
  (w >>> n) ||| (w <<< (32 - n))

/-- Mix two message words into one column or diagonal of the state. -/
def mix (v : Block) (a b c d : Fin 16) (x y : UInt32) : Block :=
  let v := v.set a (v[a] + v[b] + x)
  let v := v.set d (rotateRight (v[d] ^^^ v[a]) 16)
  let v := v.set c (v[c] + v[d])
  let v := v.set b (rotateRight (v[b] ^^^ v[c]) 12)
  let v := v.set a (v[a] + v[b] + y)
  let v := v.set d (rotateRight (v[d] ^^^ v[a]) 8)
  let v := v.set c (v[c] + v[d])
  v.set b (rotateRight (v[b] ^^^ v[c]) 7)

/-- One round: the four columns, then the four diagonals. -/
def mixAll (v m : Block) : Block :=
  let v := mix v 0 4 8 12 m[0] m[1]
  let v := mix v 1 5 9 13 m[2] m[3]
  let v := mix v 2 6 10 14 m[4] m[5]
  let v := mix v 3 7 11 15 m[6] m[7]
  let v := mix v 0 5 10 15 m[8] m[9]
  let v := mix v 1 6 11 12 m[10] m[11]
  let v := mix v 2 7 8 13 m[12] m[13]
  mix v 3 4 9 14 m[14] m[15]

/-- The order of the message words in the next round. -/
def permute (m : Block) : Block :=
  #v[m[2], m[6], m[3], m[10], m[7], m[0], m[4], m[13], m[1], m[11], m[12], m[5], m[9], m[14], m[15], m[8]]

/-- The given number of rounds, the message words permuted between them. -/
def rounds : Nat → Block → Block → Block
  | 0, v, _ => v
  | n + 1, v, m => rounds n (mixAll v m) (permute m)

structure Output where
  input : Chaining
  block : Block
  counter : UInt64
  size : UInt32
  flags : UInt32

/-- The chaining value that a compression gives. -/
def Output.chaining (o : Output) : Chaining :=
  let v : Block := #v[
    o.input[0], o.input[1], o.input[2], o.input[3], o.input[4], o.input[5], o.input[6], o.input[7],
    initial[0], initial[1], initial[2], initial[3],
    o.counter.toUInt32, (o.counter >>> 32).toUInt32, o.size, o.flags]
  let w := rounds 7 v o.block
  #v[w[0] ^^^ w[8], w[1] ^^^ w[9], w[2] ^^^ w[10], w[3] ^^^ w[11],
    w[4] ^^^ w[12], w[5] ^^^ w[13], w[6] ^^^ w[14], w[7] ^^^ w[15]]

/-- The byte at a place of the input, zero behind its end. -/
def byteAt (data : ByteArray) (i : Nat) : UInt32 :=
  if h : i < data.size then data[i].toUInt32 else 0

/-- The block of at most `size` bytes from a place on, filled up with zeros. -/
def blockAt (data : ByteArray) (start size : Nat) : Block :=
  Vector.ofFn fun i =>
    let byte (j : Nat) : UInt32 :=
      if 4 * i.val + j < size then byteAt data (start + 4 * i.val + j) else 0
    byte 0 ||| byte 1 <<< 8 ||| byte 2 <<< 16 ||| byte 3 <<< 24

/-- The last compression of a chunk, the earlier blocks of it run. -/
def chunkOutput (data : ByteArray) (counter : Nat) : Nat → Nat → Nat → Chaining → UInt32 → Output
  | 0, start, size, cv, flags =>
      ⟨cv, blockAt data start size, counter.toUInt64, size.toUInt32, flags ||| chunkEnd⟩
  | blocks + 1, start, size, cv, flags =>
      if size ≤ 64 then
        ⟨cv, blockAt data start size, counter.toUInt64, size.toUInt32, flags ||| chunkEnd⟩
      else
        let o : Output := ⟨cv, blockAt data start 64, counter.toUInt64, 64, flags⟩
        chunkOutput data counter blocks (start + 64) (size - 64) o.chaining 0

/-- How many of `n` chunks lie in the left half: the largest power of two below `n`. -/
def leftCount (n : Nat) : Nat := Nat.pow 2 (n - 1).log2

theorem leftCount_pos (n : Nat) : 0 < leftCount n := Nat.two_pow_pos _

theorem leftCount_lt {n : Nat} (h : 1 < n) : leftCount n < n := by
  have : leftCount n ≤ n - 1 := Nat.log2_self_le (by omega)
  omega

/-- The last compression of the subtree over `count` chunks from the chunk `first` on. -/
def subtree (data : ByteArray) (first count : Nat) : Output :=
  if h : 1 < count then
    let left := (subtree data first (leftCount count)).chaining
    let right := (subtree data (first + leftCount count) (count - leftCount count)).chaining
    ⟨initial, (left ++ right).cast (by decide), 0, 64, parent⟩
  else
    let start := 1024 * first
    chunkOutput data first 16 start (min 1024 (data.size - start)) initial chunkStart
termination_by count
decreasing_by
  · exact leftCount_lt h
  · exact Nat.sub_lt (Nat.lt_trans Nat.zero_lt_one h) (leftCount_pos count)

/-- The first eight words of the digest of some bytes. -/
def words (data : ByteArray) : Chaining :=
  let o := subtree data 0 (max 1 ((data.size + 1023) / 1024))
  { o with flags := o.flags ||| root }.chaining

def hexDigit (n : UInt32) : Char :=
  "0123456789abcdef".toList.getD n.toNat '0'

/-- The eight hexadecimal digits of a word, its bytes from the low one on. -/
def hexWord (w : UInt32) : List Char :=
  ([0, 8, 16, 24] : List UInt32).flatMap fun shift =>
    [hexDigit ((w >>> (shift + 4)) &&& 15), hexDigit ((w >>> shift) &&& 15)]

/-- The name by content of a text: sixteen hexadecimal digits. -/
def ofText (text : String) : String :=
  let w := words text.toUTF8
  String.ofList (hexWord w[0] ++ hexWord w[1])

end CodeSearch.Digest

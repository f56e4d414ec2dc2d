import Mathlib.Data.Nat.Bitwise

/-!
# SHA-256

The digest of a list of bytes, as a number of 256 bits; words are numbers below `2 ^ 32`.
-/

namespace Quantive.Sha256

def word (n : ℕ) : ℕ := n % 2 ^ 32

def rotr (x k : ℕ) : ℕ := word (x >>> k ||| x <<< (32 - k))

/-- The fractional parts of the cube roots of the first 64 primes. -/
def roundConstants : List ℕ :=
  [0x428a2f98, 0x71374491, 0xb5c0fbcf, 0xe9b5dba5, 0x3956c25b, 0x59f111f1, 0x923f82a4,
    0xab1c5ed5, 0xd807aa98, 0x12835b01, 0x243185be, 0x550c7dc3, 0x72be5d74, 0x80deb1fe,
    0x9bdc06a7, 0xc19bf174, 0xe49b69c1, 0xefbe4786, 0x0fc19dc6, 0x240ca1cc, 0x2de92c6f,
    0x4a7484aa, 0x5cb0a9dc, 0x76f988da, 0x983e5152, 0xa831c66d, 0xb00327c8, 0xbf597fc7,
    0xc6e00bf3, 0xd5a79147, 0x06ca6351, 0x14292967, 0x27b70a85, 0x2e1b2138, 0x4d2c6dfc,
    0x53380d13, 0x650a7354, 0x766a0abb, 0x81c2c92e, 0x92722c85, 0xa2bfe8a1, 0xa81a664b,
    0xc24b8b70, 0xc76c51a3, 0xd192e819, 0xd6990624, 0xf40e3585, 0x106aa070, 0x19a4c116,
    0x1e376c08, 0x2748774c, 0x34b0bcb5, 0x391c0cb3, 0x4ed8aa4a, 0x5b9cca4f, 0x682e6ff3,
    0x748f82ee, 0x78a5636f, 0x84c87814, 0x8cc70208, 0x90befffa, 0xa4506ceb, 0xbef9a3f7,
    0xc67178f2]

/-- The fractional parts of the square roots of the first 8 primes. -/
def initialHash : List ℕ :=
  [0x6a09e667, 0xbb67ae85, 0x3c6ef372, 0xa54ff53a, 0x510e527f, 0x9b05688c, 0x1f83d9ab,
    0x5be0cd19]

def smallSigma0 (x : ℕ) : ℕ := rotr x 7 ^^^ rotr x 18 ^^^ x >>> 3

def smallSigma1 (x : ℕ) : ℕ := rotr x 17 ^^^ rotr x 19 ^^^ x >>> 10

def bigSigma0 (x : ℕ) : ℕ := rotr x 2 ^^^ rotr x 13 ^^^ rotr x 22

def bigSigma1 (x : ℕ) : ℕ := rotr x 6 ^^^ rotr x 11 ^^^ rotr x 25

def choose (e f g : ℕ) : ℕ := (e &&& f) ^^^ ((2 ^ 32 - 1 - e) &&& g)

def majority (a b c : ℕ) : ℕ := (a &&& b) ^^^ (a &&& c) ^^^ (b &&& c)

/-- One round: the working variables `a` to `h`, a constant and a scheduled word. -/
def round (k w : ℕ) : List ℕ → List ℕ
  | [a, b, c, d, e, f, g, h] =>
    let t1 := h + bigSigma1 e + choose e f g + k + w
    let t2 := bigSigma0 a + majority a b c
    [word (t1 + t2), a, b, c, word (d + t1), e, f, g]
  | state => state

/-- The word after a window of sixteen. -/
def nextWord (window : List ℕ) : ℕ :=
  word (smallSigma1 (window.getD 14 0) + window.getD 9 0 + smallSigma0 (window.getD 1 0) +
    window.getD 0 0)

/-- The rounds of a block; `window` is the next sixteen words of the schedule. -/
def rounds : List ℕ → List ℕ → List ℕ → List ℕ
  | [], _, state => state
  | k :: constants, window, state =>
    rounds constants (window.drop 1 ++ [nextWord window]) (round k (window.getD 0 0) state)

def compress (hash block : List ℕ) : List ℕ :=
  List.zipWith (fun x y => word (x + y)) hash (rounds roundConstants block hash)

/-- Bytes of a number, the high one first. -/
def bigEndian (width n : ℕ) : List ℕ := (List.range width).reverse.map fun i => n >>> (8 * i) % 256

def fromBigEndian (bytes : List ℕ) : ℕ := bytes.foldl (fun n b => n * 256 + b) 0

def pad (bytes : List ℕ) : List ℕ :=
  bytes ++ 0x80 :: List.replicate ((119 - bytes.length % 64) % 64) 0 ++
    bigEndian 8 (8 * bytes.length)

/-- The chunks of `width` elements. -/
def chunks {α : Type} (width : ℕ) : ℕ → List α → List (List α)
  | 0, _ => []
  | count + 1, xs => xs.take width :: chunks width count (xs.drop width)

def sha256 (bytes : List ℕ) : ℕ :=
  let padded := pad bytes
  let blocks := (chunks 64 (padded.length / 64) padded).map fun block =>
    (chunks 4 16 block).map fromBigEndian
  (blocks.foldl compress initialHash).foldl (fun n w => n * 2 ^ 32 + w) 0

/-- `str.encode("utf-8")` -/
def utf8 (s : String) : List ℕ := s.toList.flatMap fun c => (String.utf8EncodeChar c).map (·.toNat)

theorem foldl_word_lt (ws : List ℕ) (hws : ∀ w ∈ ws, w < 2 ^ 32) (n k : ℕ) (hn : n < 2 ^ (32 * k)) :
    ws.foldl (fun n w => n * 2 ^ 32 + w) n < 2 ^ (32 * (k + ws.length)) := by
  induction ws generalizing n k with
  | nil => exact hn
  | cons w ws ih =>
    have hw := hws w List.mem_cons_self
    have hnext : n * 2 ^ 32 + w < 2 ^ (32 * (k + 1)) := by
      have hmul : (n + 1) * 2 ^ 32 ≤ 2 ^ (32 * k) * 2 ^ 32 := Nat.mul_le_mul_right _ hn
      rw [← Nat.pow_add] at hmul
      have hexp : 32 * (k + 1) = 32 * k + 32 := by omega
      rw [hexp]
      omega
    have hrest := ih (fun v hv => hws v (List.mem_cons_of_mem w hv)) _ (k + 1) hnext
    have hcount : k + (w :: ws).length = k + 1 + ws.length := by
      rw [List.length_cons]
      omega
    rw [List.foldl_cons, hcount]
    exact hrest

theorem compress_words (hash block : List ℕ) :
    (compress hash block).length ≤ hash.length ∧ ∀ w ∈ compress hash block, w < 2 ^ 32 := by
  unfold compress
  refine ⟨by rw [List.length_zipWith]; exact min_le_left _ _, fun w hw => ?_⟩
  rw [← List.map_uncurry_zip_eq_zipWith] at hw
  obtain ⟨x, -, rfl⟩ := List.mem_map.mp hw
  exact Nat.mod_lt _ (by decide)

/-- A hash has 256 bits. -/
theorem sha256_lt (bytes : List ℕ) : sha256 bytes < 2 ^ 256 := by
  have hhash (blocks : List (List ℕ)) (hash : List ℕ) (hlength : hash.length ≤ 8)
      (hwords : ∀ w ∈ hash, w < 2 ^ 32) :
      (blocks.foldl compress hash).length ≤ 8 ∧ ∀ w ∈ blocks.foldl compress hash, w < 2 ^ 32 := by
    induction blocks generalizing hash with
    | nil => exact ⟨hlength, hwords⟩
    | cons block blocks ih =>
      obtain ⟨hshort, hword⟩ := compress_words hash block
      exact ih _ (hshort.trans hlength) hword
  unfold sha256
  dsimp only
  obtain ⟨hlength, hwords⟩ := hhash _ initialHash (by decide) (by decide)
  refine (foldl_word_lt _ hwords 0 0 (by decide)).trans_le (Nat.pow_le_pow_right (by decide) ?_)
  omega

example : sha256 (utf8 "abc") =
    0xba7816bf8f01cfea414140de5dae2223b00361a396177a9cb410ff61f20015ad := by
  decide +kernel

end Quantive.Sha256
